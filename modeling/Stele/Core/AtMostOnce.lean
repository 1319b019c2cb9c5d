import Stele.Core.Guarantees

/-!
# At-most-once ingestion

`AppendCtx` writes the replay record of an envelope and its entry in two transactions. Whatever
fails or crashes between them, the record comes first, so the table has the hash of every entry of
the log.
-/

namespace Stele

open Lib List Function

/-! ## The replay table -/

namespace Db

/-- How long a record of time `t` has to stay: for ever when no lifetime is configured. -/
def Lasts (replayTTL t : Int) (expiresAt : Option Int) : Prop :=
  if 0 < replayTTL then ∃ u, expiresAt = some u ∧ t + replayTTL ≤ u else expiresAt = none

def Recorded (replayTTL t : Int) (key : Bytes) (db : Db) : Prop :=
  ∃ v, db.replay.lookup key = some v ∧ Lasts replayTTL t v.expiresAt

variable {db db' : Db} {replayTTL now : Int}

lemma Recorded.expired {t : Int} {key : Bytes} (h : db.Recorded replayTTL t key)
    (hnone : db.liveReplay now key = none) : 0 < replayTTL ∧ t + replayTTL ≤ now := by
  obtain ⟨v, hv, hlasts⟩ := h
  simp only [liveReplay, hv, Option.filter_some] at hnone
  by_cases httl : 0 < replayTTL
  · obtain ⟨u, hu, hle⟩ := (by simpa only [Lasts, if_pos httl] using hlasts :
      ∃ u, v.expiresAt = some u ∧ t + replayTTL ≤ u)
    simp only [hu] at hnone
    refine ⟨httl, ?_⟩
    by_contra hlt
    have hlive : now < u := by omega
    simp [hlive] at hnone
  · have hnever : v.expiresAt = none := by simpa only [Lasts, if_neg httl] using hlasts
    simp [hnever] at hnone

/-- **What a passed replay check says.** The key is recorded now, a record that was there before has
expired and stays recorded, and nothing else of the store changes. -/
theorem checkAndRecordEnvelope_ok {fault : Option Err} {hash : Bytes} {idx : Nat}
    (h : db.checkAndRecordEnvelope fault replayTTL now hash idx = (db', .ok ())) :
    db'.Recorded replayTTL now (hex hash) ∧
    (∀ t, db.Recorded replayTTL t (hex hash) → 0 < replayTTL ∧ t + replayTTL ≤ now) ∧
    (∀ t key, db.Recorded replayTTL t key → db'.Recorded replayTTL t key) ∧
    db'.entry = db.entry ∧ db'.size = db.size := by
  have htxn := update_ok h
  simp only at htxn
  cases hlive : db.liveReplay now (hex hash) with
  | some => simp [hlive] at htxn
  | none =>
    simp only [hlive, Except.ok.injEq] at htxn
    subst htxn
    have hnew : Lasts replayTTL now (if 0 < replayTTL then some (now + replayTTL) else none) := by
      by_cases httl : 0 < replayTTL
      · simp only [Lasts, if_pos httl]
        exact ⟨_, rfl, le_refl _⟩
      · simp only [Lasts, if_neg httl]
    refine ⟨⟨_, AList.lookup_insert _, hnew⟩, fun t ht => ht.expired hlive, fun t key ht => ?_,
      rfl, rfl⟩
    by_cases hkey : key = hex hash
    · subst hkey
      obtain ⟨httl, hle⟩ := ht.expired hlive
      refine ⟨_, AList.lookup_insert _, ?_⟩
      simp only [Lasts, if_pos httl]
      exact ⟨_, rfl, by omega⟩
    · obtain ⟨v, hv, hlasts⟩ := ht
      exact ⟨v, by simpa only [AList.lookup_insert_ne hkey] using hv, hlasts⟩

lemma checkAndRecordEnvelope_error {fault : Option Err} {hash : Bytes} {idx : Nat} {f : Fault}
    (h : db.checkAndRecordEnvelope fault replayTTL now hash idx = (db', .error f)) : db' = db :=
  update_error h

end Db

namespace Core

variable {R : RangeImpl Bytes}

/-! ## The operator with what it accepted -/

/-- An entry of the log and the clock reading at which its envelope passed the replay check. -/
structure Accepted where
  entry : Entry
  time : Int

/-- The operator, when each thread's envelope last passed the replay check, and every entry that
was committed. -/
structure Traced (R : RangeImpl Bytes) where
  state : State R
  passed : Tid → Int
  accepted : List Accepted

def Traced.init (R : RangeImpl Bytes) : Traced R := ⟨Core.init R, fun _ => 0, []⟩

def Traced.step (C : Crypto) (opts : Options) (s : Traced R) (a : Action) : Traced R :=
  let next := Core.step C opts s.state a
  match a, s.state.proc with
  | .thread t r, some p =>
    match p.pc t with
    | .appendRecord .. => ⟨next, Function.update s.passed t r.now, s.accepted⟩
    | .appendEntry e =>
      match (s.state.db.appendEntry r.fault e).2 with
      | .ok () => ⟨next, s.passed, s.accepted ++ [⟨e, s.passed t⟩]⟩
      | .error _ => ⟨next, s.passed, s.accepted⟩
    | _ => ⟨next, s.passed, s.accepted⟩
  | _, _ => ⟨next, s.passed, s.accepted⟩

variable {C : Crypto} {opts : Options}

lemma Traced.step_state (s : Traced R) (a : Action) :
    (s.step C opts a).state = Core.step C opts s.state a := by
  unfold Traced.step
  split
  · split
    · rfl
    · split <;> rfl
    · rfl
  · rfl

lemma run_traced_state (s : Traced R) (as : List Action) :
    (run (Traced.step C opts) s as).state = run (step C opts) s.state as := by
  induction as generalizing s with
  | nil => rfl
  | cons a as ih => rw [run_cons, run_cons, ih, Traced.step_state]

/-! ## The invariant -/

def Pc.Pending (P : Envelope → Prop) : Pc → Prop
  | .appendHead _ env _ => P env
  | .appendEntry e => ∃ env, e.envelope = some env ∧ P env
  | _ => True

lemma Pc.Pending.mono {P Q : Envelope → Prop} (hPQ : ∀ env, P env → Q env) {x : Pc}
    (h : x.Pending P) : x.Pending Q := by
  cases x with
  | appendHead idx env => exact hPQ env h
  | appendEntry =>
    obtain ⟨env, henv, hP⟩ := h
    exact ⟨env, henv, hPQ env hP⟩
  | _ => exact h

lemma Pc.pending_of_not_critical {P : Envelope → Prop} {x : Pc} (h : x.critical = false) :
    x.Pending P := by
  cases x with
  | appendHead => cases h
  | appendEntry => cases h
  | _ => trivial

def HasHash (C : Crypto) (hash : Bytes) (e : Entry) : Prop :=
  ∃ env, e.envelope = some env ∧ env.hash C = hash

/-- An envelope that passed the replay check at `time`: its record is in the table, and an entry
with the same hash is older than the lifetime of a record. -/
def Passed (C : Crypto) (replayTTL : Int) (db : Db) (accepted : List Accepted) (time : Int)
    (env : Envelope) : Prop :=
  db.Recorded replayTTL time (hex (env.hash C)) ∧
  ∀ a ∈ accepted, HasHash C (env.hash C) a.entry → 0 < replayTTL ∧ a.time + replayTTL ≤ time

structure Traced.Inv (C : Crypto) (opts : Options) (s : Traced R) : Prop where
  entry : s.state.db.entry.IsSeq (s.accepted.map fun a => some a.entry.marshal)
  size : s.state.db.readSize = .ok s.accepted.length
  table : ∀ a ∈ s.accepted, ∃ env, a.entry.envelope = some env ∧
    s.state.db.Recorded opts.replayTTL a.time (hex (env.hash C))
  apart : s.accepted.Pairwise fun a b => ∀ hash, HasHash C hash a.entry → HasHash C hash b.entry →
    0 < opts.replayTTL ∧ a.time + opts.replayTTL ≤ b.time
  holder : ∀ p, s.state.proc = some p → p.Exclusive
  threads : ∀ p, s.state.proc = some p → ∀ t,
    (p.pc t).Pending (Passed C opts.replayTTL s.state.db s.accepted (s.passed t))

lemma Traced.init_inv : (Traced.init R).Inv C opts where
  entry := OrdMap.isSeq_empty
  size := rfl
  table := nofun
  apart := List.Pairwise.nil
  holder := nofun
  threads := nofun

structure Grows (replayTTL : Int) (db db' : Db) : Prop where
  entry : db'.entry = db.entry
  size : db'.size = db.size
  recorded : ∀ t key, db.Recorded replayTTL t key → db'.Recorded replayTTL t key

namespace Grows

variable {ttl : Int} {db : Db}

lemma of_eq {db' : Db} (he : db'.entry = db.entry) (hs : db'.size = db.size)
    (hr : db'.replay = db.replay) : Grows ttl db db' := by
  refine ⟨he, hs, fun t key h => ?_⟩
  unfold Db.Recorded
  rw [hr]
  exact h

lemma refl (db : Db) : Grows ttl db db := of_eq rfl rfl rfl

lemma saveCheckpoint (fault : Option Err) (size : Nat) (body : Json) :
    Grows ttl db (db.saveCheckpoint fault size body).1 := by
  obtain ⟨ckpt, heq⟩ := db.saveCheckpoint_frame fault size body
  rw [heq]
  exact of_eq rfl rfl rfl

lemma registerProducer (fault : Option Err) (now : Int) (p : Producer) :
    Grows ttl db (db.registerProducer fault now p).1 := by
  obtain ⟨producer, heq⟩ := db.registerProducer_frame fault now p
  rw [heq]
  exact of_eq rfl rfl rfl

lemma revokeProducer (fault : Option Err) (now : Int) (id reason : Bytes) :
    Grows ttl db (db.revokeProducer fault now id reason).1 := by
  obtain ⟨producer, heq⟩ := db.revokeProducer_frame fault now id reason
  rw [heq]
  exact of_eq rfl rfl rfl

lemma newLog (opts : Options) (faults : Nat → ReplayFaults) :
    Grows ttl db (newLog C R opts faults db).1 := by
  obtain ⟨leaf, heq⟩ := newLog_sameButLeaf (C := C) (R := R) opts faults db
  rw [heq]
  exact of_eq rfl rfl rfl

end Grows

lemma Passed.mono {ttl : Int} {db db' : Db} (hdb : Grows ttl db db') {accepted : List Accepted}
    {time : Int} {env : Envelope} (h : Passed C ttl db accepted time env) :
    Passed C ttl db' accepted time env :=
  ⟨hdb.recorded _ _ h.1, h.2⟩

namespace Traced.Inv

variable {s : Traced R} (h : s.Inv C opts)
include h

variable {passed : Tid → Int}

lemma keep {state : State R} (hdb : Grows opts.replayTTL s.state.db state.db)
    (hproc : ∀ p, state.proc = some p → p.Exclusive ∧ ∀ t,
      (p.pc t).Pending (Passed C opts.replayTTL state.db s.accepted (passed t))) :
    (⟨state, passed, s.accepted⟩ : Traced R).Inv C opts where
  entry := by
    show state.db.entry.IsSeq _
    rw [hdb.entry]
    exact h.entry
  size := by
    show state.db.readSize = _
    unfold Db.readSize
    rw [hdb.size]
    exact h.size
  table a ha := by
    obtain ⟨env, henv, hrec⟩ := h.table a ha
    exact ⟨env, henv, hdb.recorded _ _ hrec⟩
  apart := h.apart
  holder p hp := (hproc p hp).1
  threads p hp := (hproc p hp).2

variable {p : Proc R} {rets : List Ret} {t : Tid} {x : Pc}

lemma move {p' : Proc R} (hp : s.state.proc = some p) {db : Db}
    (hdb : Grows opts.replayTTL s.state.db db) (hexcl : p'.Exclusive)
    (hpc : p'.pc = Function.update p.pc t x) (hpassed : ∀ u, u ≠ t → passed u = s.passed u)
    (hx : x.Pending (Passed C opts.replayTTL db s.accepted (passed t))) :
    (⟨⟨db, some p', rets⟩, passed, s.accepted⟩ : Traced R).Inv C opts := by
  apply h.keep hdb
  intro q hq
  cases hq
  refine ⟨hexcl, fun u => ?_⟩
  rw [hpc]
  by_cases hut : u = t
  · subst hut
    rw [update_self]
    exact hx
  · rw [update_of_ne hut, hpassed u hut]
    exact (h.threads p hp u).mono fun env henv => henv.mono hdb

lemma commit (hp : s.state.proc = some p) {fault : Option Err} {db : Db} {e : Entry}
    (hpc : p.pc t = .appendEntry e) (happ : s.state.db.appendEntry fault e = (db, .ok ())) :
    (⟨⟨db, some (p.goto t (.appendTree e)), rets⟩, s.passed, s.accepted ++ [⟨e, s.passed t⟩]⟩ :
      Traced R).Inv C opts := by
  obtain ⟨hsize, rfl⟩ := Db.appendEntry_ok happ
  have hidx : e.index = s.accepted.length := Except.ok.inj (hsize.symm.trans h.size)
  have hcrit : (p.pc t).critical = true := by rw [hpc]; rfl
  have hexcl := h.holder p hp
  obtain ⟨env, henv, hrec, hold⟩ : ∃ env, e.envelope = some env ∧
      Passed C opts.replayTTL s.state.db s.accepted (s.passed t) env := by
    have hpend := h.threads p hp t
    rwa [hpc] at hpend
  refine ⟨?_, ?_, ?_, ?_, ?_, ?_⟩
  · have hseq := h.entry.set (some e.marshal)
    rw [length_map, ← hidx] at hseq
    rw [map_append]
    exact hseq
  · simp [Db.readSize, hidx]
  · intro a ha
    rcases mem_append.mp ha with ha | ha
    · exact h.table a ha
    · rw [mem_singleton.mp ha]
      exact ⟨env, henv, hrec⟩
  · refine pairwise_append.mpr ⟨h.apart, pairwise_singleton _ _, ?_⟩
    intro a ha b hb hash hhash hhash'
    rw [mem_singleton.mp hb] at hhash' ⊢
    -- the hash is that of the envelope in hand, which passed the check after `a`
    obtain ⟨env', henv', rfl⟩ := hhash'
    have heq : env' = env := Option.some.inj (henv'.symm.trans henv)
    exact hold a ha (heq ▸ hhash)
  · intro q hq
    cases hq
    exact hexcl.goto fun _ => hcrit
  · intro q hq u
    cases hq
    simp only [Proc.goto]
    by_cases hut : u = t
    · subst hut
      rw [update_self]
      trivial
    · rw [update_of_ne hut]
      exact Pc.pending_of_not_critical (hexcl.ncrit hcrit hut)

/-- Thread `t` ends its call or goes on without a recorded envelope; the store stays. -/
lemma quiet {p' : Proc R} (hp : s.state.proc = some p) (hexcl : p'.Exclusive)
    (hpc : p'.pc = Function.update p.pc t x) (hpassed : ∀ u, u ≠ t → passed u = s.passed u)
    (hx : ∀ P, x.Pending P) :
    (⟨⟨s.state.db, some p', rets⟩, passed, s.accepted⟩ : Traced R).Inv C opts :=
  h.move hp (.refl _) hexcl hpc hpassed (hx _)

variable {r : Reads}

lemma record (hp : s.state.proc = some p) {idx : Nat} {env : Envelope} {honeypot : Bool} {db : Db}
    (hpc : p.pc t = .appendRecord idx env honeypot)
    (hrec : s.state.db.checkAndRecordEnvelope r.fault opts.replayTTL r.now (env.hash C) idx =
      (db, .ok ())) :
    (⟨⟨db, some (p.goto t (.appendHead idx env honeypot)), rets⟩,
      Function.update s.passed t r.now, s.accepted⟩ : Traced R).Inv C opts := by
  obtain ⟨hnew, hold, hkeep, he, hs⟩ := Db.checkAndRecordEnvelope_ok hrec
  apply h.move hp ⟨he, hs, hkeep⟩ ((h.holder p hp).goto fun _ => by rw [hpc]; rfl) rfl
    fun u hut => update_of_ne hut _ _
  show Passed C opts.replayTTL db s.accepted (Function.update s.passed t r.now t) env
  rw [update_self]
  refine ⟨hnew, fun a ha hhash => ?_⟩
  -- an accepted entry with this hash is in the table, and its record was not read any more
  obtain ⟨env', henv', hrec'⟩ := h.table a ha
  obtain ⟨env'', henv'', heq⟩ := hhash
  rw [← Option.some.inj (henv''.symm.trans henv'), heq] at hrec'
  exact hold _ hrec'

omit h in
/-- A step that commits no entry changes at most the time of its own thread. -/
lemma step_uncommitted (hp : s.state.proc = some p)
    (hentry : ∀ e, p.pc t = .appendEntry e → ∃ f, (s.state.db.appendEntry r.fault e).2 = .error f) :
    ∃ passed, s.step C opts (.thread t r) =
        ⟨Core.step C opts s.state (.thread t r), passed, s.accepted⟩ ∧
      ∀ u, u ≠ t → passed u = s.passed u := by
  simp only [Traced.step, hp]
  split
  · exact ⟨_, rfl, fun u hut => update_of_ne hut _ _⟩
  · rename_i e hpc
    obtain ⟨f, hf⟩ := hentry e hpc
    simp only [hf]
    exact ⟨_, rfl, fun _ _ => rfl⟩
  · exact ⟨_, rfl, fun _ _ => rfl⟩

lemma thread_step (t : Tid) (r : Reads) : (s.step C opts (.thread t r)).Inv C opts := by
  cases hp : s.state.proc with
  | none =>
    simp only [Traced.step, Core.step, hp]
    exact h
  | some p =>
    have hexcl := h.holder p hp
    have hpend := h.threads p hp t
    have hacts := threadStep_acts C opts t r s.state.db p
    have hquiet := @step_uncommitted R C opts s p t r hp
    have hnext : Core.step C opts s.state (.thread t r) =
        ⟨(threadStep C opts t r s.state.db p).1, some (threadStep C opts t r s.state.db p).2.1,
          s.state.returned ++ (threadStep C opts t r s.state.db p).2.2.toList⟩ := by
      simp only [Core.step, hp]
    cases hout : threadStep C opts t r s.state.db p with | mk db out =>
    rw [hout] at hacts hnext
    cases hacts with
    | record hpc hrec =>
      simp only [Traced.step, hp, hpc, hnext]
      exact h.record hp hpc hrec
    | head hpc =>
      rw [hpc] at hpend
      simp only [Traced.step, hp, hpc, hnext]
      exact h.move hp (.refl _) (hexcl.goto fun _ => by rw [hpc]; rfl) rfl (fun _ _ => rfl)
        ⟨_, rfl, hpend⟩
    | commit hpc happ =>
      simp only [Traced.step, hp, hpc, happ, hnext]
      exact h.commit hp hpc happ
    | @save c _ hpc hsave =>
      have hgrow : Grows opts.replayTTL s.state.db _ := .saveCheckpoint r.fault c.size c.marshal
      rw [hsave] at hgrow
      simp only [Traced.step, hp, hpc, hnext]
      exact h.move hp hgrow (hexcl.rest rfl) rfl (fun _ _ => rfl) trivial
    | stay hpc hfree =>
      obtain ⟨passed, heq, hpassed⟩ := hquiet fun e he => by cases hpc.symm.trans he; cases hfree
      rw [heq, hnext]
      exact h.quiet hp hexcl (update_eq_self t p.pc).symm hpassed fun _ =>
        hpc ▸ Pc.pending_of_not_critical hfree
    | fail f hpc hfree =>
      obtain ⟨passed, heq, hpassed⟩ := hquiet fun e he => by cases hpc.symm.trans he; cases hfree
      rw [heq, hnext]
      exact h.quiet hp (hexcl.rest rfl) rfl hpassed fun _ => trivial
    | failLocked f hpc hcrit hentry =>
      obtain ⟨passed, heq, hpassed⟩ := hquiet fun e he => hentry e (hpc.symm.trans he)
      rw [heq, hnext]
      exact h.quiet hp (hexcl.leave rfl (by rw [hpc]; exact hcrit)) rfl hpassed fun _ => trivial
    | check hpc | sign hpc | gather hpc =>
      simp only [Traced.step, hp, hpc, hnext]
      exact h.quiet hp (hexcl.rest rfl) rfl (fun _ _ => rfl) fun _ => trivial
    | lock hpc hmu | ckptLock hpc hmu | stuck hpc hmu =>
      simp only [Traced.step, hp, hpc, hnext]
      exact h.quiet hp (hexcl.enter _ hmu) rfl (fun _ _ => rfl) fun _ => trivial
    | publish hpc | ckptHead hpc =>
      simp only [Traced.step, hp, hpc, hnext]
      exact h.quiet hp (hexcl.leave rfl (by rw [hpc]; rfl)) rfl (fun _ _ => rfl) fun _ => trivial

lemma begin_step (hcrit : x.critical = false) (hx : ∀ P, x.Pending P) :
    (⟨begin s.state t x, s.passed, s.accepted⟩ : Traced R).Inv C opts := by
  unfold begin
  cases hp : s.state.proc with
  | none => exact h
  | some p =>
    simp only
    split
    · exact h.quiet hp ((h.holder p hp).goto fun hc => by simp [hcrit] at hc) rfl
        (fun _ _ => rfl) hx
    · exact h

lemma step (a : Action) : (s.step C opts a).Inv C opts := by
  cases a with
  | callAppend => exact h.begin_step rfl fun _ => trivial
  | callCheckpoint => exact h.begin_step rfl fun _ => trivial
  | thread t r => exact h.thread_step t r
  | registerProducer fault now p =>
    exact h.keep (.registerProducer fault now p) fun q hq =>
      ⟨h.holder q hq, fun t => (h.threads q hq t).mono fun _ => .mono (.registerProducer _ _ _)⟩
  | revokeProducer fault now id reason =>
    exact h.keep (.revokeProducer fault now id reason) fun q hq =>
      ⟨h.holder q hq, fun t => (h.threads q hq t).mono fun _ => .mono (.revokeProducer _ _ _ _)⟩
  | crash => exact h.keep (.refl _) nofun
  | start faults =>
    have hgrow : Grows opts.replayTTL s.state.db (newLog C R opts faults s.state.db).1 :=
      .newLog opts faults
    simp only [Traced.step, Core.step]
    cases hp : s.state.proc with
    | some => exact h.keep (.refl _) fun q hq => ⟨h.holder q hq, h.threads q hq⟩
    | none =>
      rcases hnew : newLog C R opts faults s.state.db with ⟨db, f | tree⟩
      · rw [hnew] at hgrow
        exact h.keep hgrow nofun
      · rw [hnew] at hgrow
        refine h.keep hgrow fun q hq => ?_
        cases hq
        exact ⟨nofun, fun _ => trivial⟩

end Traced.Inv

lemma run_traced (as : List Action) :
    (run (Traced.step C opts) (Traced.init R) as).Inv C opts :=
  run_invariant (fun _ a (_ : True) h => h.step a) Traced.init_inv fun _ _ => trivial

/-! ## The result -/

/-- **An envelope is ingested at most once.** In every run the store has exactly the accepted
entries. When records do not expire no two of them have envelopes with the same hash, and the table
has the hash of each for ever. When a record lives for `d`, two entries with the same envelope hash
passed the replay check at least `d` apart. -/
theorem at_most_once (C : Crypto) (R : RangeImpl Bytes) (opts : Options) (as : List Action) :
    let s := run (Traced.step C opts) (Traced.init R) as
    s.state = run (step C opts) (init R) as ∧
    s.state.db.entry.IsSeq (s.accepted.map fun a => some a.entry.marshal) ∧
    (∀ a ∈ s.accepted, ∃ hash, HasHash C hash a.entry) ∧
    (opts.replayTTL = 0 →
      (s.accepted.Pairwise fun a b => ∀ hash, HasHash C hash a.entry → ¬ HasHash C hash b.entry) ∧
      ∀ a ∈ s.accepted, ∀ hash, HasHash C hash a.entry →
        ∃ v, s.state.db.replay.lookup (hex hash) = some v ∧ v.expiresAt = none) ∧
    ∀ d, 0 < d → opts.replayTTL = d →
      s.accepted.Pairwise fun a b => ∀ hash, HasHash C hash a.entry → HasHash C hash b.entry →
        a.time + d ≤ b.time := by
  intro s
  have h : s.Inv C opts := run_traced as
  refine ⟨run_traced_state _ as, h.entry, fun a ha => ?_, fun httl => ⟨?_, ?_⟩, ?_⟩
  · obtain ⟨env, henv, -⟩ := h.table a ha
    exact ⟨_, env, henv, rfl⟩
  · refine h.apart.imp fun hab hash ha hb => ?_
    have hpos := (hab hash ha hb).1
    omega
  · rintro a ha hash ⟨env, henv, rfl⟩
    obtain ⟨env', henv', v, hv, hlasts⟩ := h.table a ha
    rw [← Option.some.inj (henv.symm.trans henv')] at hv
    have hnever : ¬ 0 < opts.replayTTL := by omega
    exact ⟨v, hv, by simpa only [Db.Lasts, if_neg hnever] using hlasts⟩
  · rintro d - rfl
    exact h.apart.imp fun hab hash ha hb => (hab hash ha hb).2

def appendAt (t : Tid) (now : Int) : List Action :=
  .callAppend t (some sampleEnvelope) false ::
    List.replicate 6 (.thread t { sampleReads with now := now })

def resubmitted : List Action :=
  [.start fun _ => {}, .registerProducer none 1 { id := lit "p", publicKey := List.replicate 32 5 }]
    ++ appendAt 0 0 ++ appendAt 1 5 ++ appendAt 0 10

example : ((run (Traced.step Crypto.sample {}) (Traced.init sampleRange) resubmitted).accepted.map
    Accepted.time) = [0] := by decide +kernel

example : ((run (Traced.step Crypto.sample { replayTTL := 10 }) (Traced.init sampleRange)
    resubmitted).accepted.map Accepted.time) = [0, 10] := by decide +kernel

end Core

end Stele
