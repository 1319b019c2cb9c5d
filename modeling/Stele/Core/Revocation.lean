import Stele.Core.Ceremony

/-!
# Revocation

`RevokeProducer` marks the record of a producer. `AppendCtx` reads the record before it takes the
lock of the log, and every registration replaces it, so what is under way when a producer is revoked
decides whether it stays out.
-/

namespace Stele.Core.Ceremony

open Lib List AList

variable {C : Crypto} {opts : Options} {R : RangeImpl Bytes}

/-! ## The log -/

def Carried (P : Envelope → Prop) (core : Core.State R) : Prop :=
  ∀ p, core.proc = some p → ∀ t, (p.pc t).Carries P

structure Logged (s : State R) : Prop where
  entry : s.core.db.entry.IsSeq (s.log.map fun e => some e.marshal)
  size : s.core.db.readSize = .ok s.log.length
  threads : Carried (fun _ => True) s.core

lemma init_logged : Logged (init R) := ⟨OrdMap.isSeq_empty, rfl, nofun⟩

section
variable {s : State R}

lemma Logged.of_eq {s' : State R} (h : Logged s)
    (hentry : s'.core.db.entry = s.core.db.entry) (hsize : s'.core.db.size = s.core.db.size)
    (hlog : s'.log = s.log) (hthreads : Carried (fun _ => True) s'.core) : Logged s' where
  entry := by
    rw [hentry, hlog]
    exact h.entry
  size := by
    rw [Db.readSize, hsize, hlog]
    exact h.size
  threads := hthreads

lemma Logged.commit (h : Logged s) {fault : Option Err} {e : Entry} {db : Db}
    (happ : s.core.db.appendEntry fault e = (db, .ok ())) {s' : State R} (hdb : s'.core.db = db)
    (hlog : s'.log = s.log ++ [e]) (hthreads : Carried (fun _ => True) s'.core) : Logged s' := by
  obtain ⟨hsize, rfl⟩ := Db.appendEntry_ok happ
  have hidx : e.index = s.log.length := Except.ok.inj (hsize.symm.trans h.size)
  refine ⟨?_, ?_, hthreads⟩
  · have hseq := h.entry.set (some e.marshal)
    rw [length_map, ← hidx] at hseq
    rw [hdb, hlog, map_append]
    exact hseq
  · simp [hdb, hlog, Db.readSize, hidx]

lemma Carried.update {P : Envelope → Prop} {core : Core.State R} {p p' : Proc R} {db : Db}
    {rets : List Ret} {t : Tid} {x : Pc} (h : Carried P core) (hp : core.proc = some p)
    (hpc : p'.pc = Function.update p.pc t x) (hx : x.Carries P) :
    Carried P ⟨db, some p', rets⟩ := by
  intro q hq u
  cases hq
  rw [hpc]
  by_cases hut : u = t
  · subst hut
    rw [Function.update_self]
    exact hx
  · rw [Function.update_of_ne hut]
    exact h p hp u

lemma thread_cases {p : Proc R} (hp : s.core.proc = some p) (P : Envelope → Prop) (t : Tid)
    (r : Reads)
    (hcheck : ∀ o honeypot env, p.pc t = .appendCheck o honeypot →
      checkAppend C opts r s.core.db o = .ok env → P env)
    (hP : (p.pc t).Carries P) :
    ∃ (db : Db) (p' : Proc R) (rets : List Ret) (new : List Entry) (x : Pc),
      s.step C opts (.thread t r) = { s with core := ⟨db, some p', rets⟩, log := s.log ++ new } ∧
      p'.pc = Function.update p.pc t x ∧ x.Carries P ∧ db.producer = s.core.db.producer ∧
      (new = [] ∧ SameLog s.core.db db ∨ ∃ e env, new = [e] ∧ e.envelope = some env ∧ P env ∧
        s.core.db.appendEntry r.fault e = (db, .ok ())) := by
  have hstep : s.step C opts (.thread t r) =
      { s with
        core := ⟨(threadStep C opts t r s.core.db p).1,
          some (threadStep C opts t r s.core.db p).2.1,
          s.core.returned ++ (threadStep C opts t r s.core.db p).2.2.toList⟩
        log := s.log ++ committed r s.core.db (p.pc t) } := by
    simp only [State.step, Core.step, hp]
  rw [hstep]
  rcases threadStep_cases C opts P t r s.core.db p hcheck hP with
    ⟨e, db', hpc, happ, heq⟩ | ⟨hfail, hsame, x, hpc, hx⟩
  · have hnew : committed r s.core.db (p.pc t) = [e] := by rw [hpc, committed, happ]
    rw [hpc] at hP
    obtain ⟨env, henv, hPenv⟩ := hP
    rw [heq, hnew]
    refine ⟨_, _, _, _, .appendTree e, rfl, rfl, trivial, ?_, .inr ⟨e, env, rfl, henv, hPenv, happ⟩⟩
    obtain ⟨-, rfl⟩ := Db.appendEntry_ok happ
    rfl
  · have hnew : committed r s.core.db (p.pc t) = [] := by
      cases hx' : p.pc t with
      | appendEntry e =>
        obtain ⟨f, hf⟩ := hfail e hx'
        rw [committed, hf]
      | _ => rfl
    rw [hnew]
    exact ⟨_, _, _, _, x, rfl, hpc, hx, hsame.producer, .inl ⟨rfl, hsame⟩⟩

lemma Moves.frame {r : EnrollReads} {sh sh' : Shared} {stage : Stage} {next : Next}
    (h : Moves C r sh stage sh' next) :
    sh'.db.entry = sh.db.entry ∧ sh'.db.size = sh.db.size := by
  cases h with
  | register hreg =>
    obtain ⟨registeredAt, rfl⟩ := Db.registerProducer_ok hreg
    exact ⟨rfl, rfl⟩
  | revoke hrev =>
    obtain ⟨p, -, rfl⟩ := Db.revokeProducer_ok hrev
    exact ⟨rfl, rfl⟩
  | _ => exact ⟨rfl, rfl⟩

lemma Logged.step (h : Logged s) (a : Action) : Logged (s.step C opts a) := by
  have haside : ∀ {core : Core.State R} {pending : AList fun _ : Bytes => Pending}
      {calls : List Stage}, Aside s.core core →
      Logged { s with core := core, pending := pending, calls := calls } :=
    fun hcore => h.of_eq hcore.same.entry hcore.same.size rfl (hcore.threads _ h.threads)
  cases a with
  | callAppend t => exact haside (begin_aside _ t fun _ => trivial)
  | callCheckpoint t => exact haside (begin_aside _ t fun _ => trivial)
  | thread t r =>
    cases hp : s.core.proc with
    | none =>
      simp only [State.step, hp]
      exact h
    | some p =>
      obtain ⟨db, p', rets, new, x, heq, hpc, hx, -, hnew⟩ := @thread_cases C opts R s p hp
        (fun _ => True) t r (fun _ _ _ _ _ => trivial) (h.threads p hp t)
      have hthreads : Carried (fun _ => True) (⟨db, some p', rets⟩ : Core.State R) :=
        h.threads.update hp hpc hx
      rw [heq]
      rcases hnew with ⟨rfl, hsame⟩ | ⟨e, env, rfl, -, -, happ⟩
      · exact h.of_eq hsame.entry hsame.size (append_nil _) hthreads
      · exact h.commit happ rfl rfl hthreads
  | crash => exact haside (crash_aside _)
  | start faults => exact haside (start_aside _ faults)
  | call =>
    simp only [State.step]
    split
    · exact h
    · exact h.of_eq rfl rfl rfl h.threads
  | resume i r =>
    simp only [State.step]
    cases hcall : s.calls[i]? with
    | none => exact h
    | some stage =>
      have hframe := (@resume_moves C r ⟨s.core.db, s.pending⟩ stage).frame
      exact h.of_eq hframe.1 hframe.2 rfl h.threads
  | janitor => exact h.of_eq rfl rfl rfl h.threads

end

/-! ## A producer that stays out -/

def Stage.producerID : Stage → Option Bytes
  | issue req => some req.id
  | begin req => some req.id
  | keep _ prod => some prod.id
  | answer _ p _ _ => some p.prod.id
  | sign _ prod => some prod.id
  | hybrid _ prod => some prod.id
  | quantumSign _ prod => some prod.id
  | quantumKey _ prod _ => some prod.id
  | register _ prod => some prod.id
  | _ => none

def Action.begins : Action → Option Bytes
  | .call req => req.start.producerID
  | _ => none

/-- Nothing is under way for the producer: no append has passed its checks, no challenge waits, no
call may write its record. -/
structure Settled (id : Bytes) (s : State R) : Prop where
  threads : Carried (fun env => env.producerID ≠ id) s.core
  pending : ∀ ch p, s.pending.lookup ch = some p → p.prod.id ≠ id
  calls : ∀ stage ∈ s.calls, stage.producerID ≠ some id

def Revoked (id : Bytes) (db : Db) : Prop :=
  ∀ fault prod, db.getProducer fault id = .ok prod → prod.revoked = true

structure Closed (id : Bytes) (s : State R) : Prop extends Settled id s where
  revoked : Revoked id s.core.db

def Spares (id : Bytes) (s s' : State R) : Prop :=
  ∃ new, s'.log = s.log ++ new ∧ ∀ e ∈ new, ∀ env, e.envelope = some env → env.producerID ≠ id

lemma Spares.of_eq {id : Bytes} {s s' : State R} (h : s'.log = s.log) : Spares id s s' :=
  ⟨[], by rw [h, append_nil], nofun⟩

lemma Spares.trans {id : Bytes} {s s' s'' : State R} (h : Spares id s s')
    (h' : Spares id s' s'') : Spares id s s'' := by
  obtain ⟨new, hlog, hnew⟩ := h
  obtain ⟨new', hlog', hnew'⟩ := h'
  refine ⟨new ++ new', by rw [hlog', hlog, append_assoc], fun e he => ?_⟩
  rcases mem_append.mp he with he | he
  · exact hnew e he
  · exact hnew' e he

section
variable {id : Bytes} {s : State R}

lemma Revoked.of_lookup {db db' : Db} (h : Revoked id db)
    (hlook : db'.producer.lookup id = db.producer.lookup id) : Revoked id db' := by
  intro fault prod hget
  refine h fault prod ?_
  unfold Db.getProducer Db.view at hget ⊢
  cases fault with
  | some => exact hget
  | none =>
    simp only [hlook] at hget
    exact hget

lemma revoked_of_commit {fault : Option Err} {now : Int} {reason : Bytes} {db db' : Db}
    (h : db.revokeProducer fault now id reason = (db', .ok ())) : Revoked id db' := by
  obtain ⟨p, hp, rfl⟩ := Db.revokeProducer_ok h
  intro fault' prod hget
  unfold Db.getProducer Db.view at hget
  cases fault' with
  | some => cases hget
  | none =>
    simp only [lookup_insert, Doc.decode, Producer.ofJson_toJson_coerce] at hget
    cases hget
    exact hp

lemma Moves.revoked_db {r : EnrollReads} {sh sh' : Shared} {stage : Stage} {next : Next}
    (h : Moves C r sh stage sh' next) (hstage : stage.producerID ≠ some id)
    (hrev : Revoked id sh.db) : Revoked id sh'.db := by
  cases h with
  | @register src prod db hreg =>
    obtain ⟨registeredAt, rfl⟩ := Db.registerProducer_ok hreg
    have hid : id ≠ prod.id := fun heq => hstage (by rw [heq]; rfl)
    exact hrev.of_lookup (lookup_insert_ne hid)
  | @revoke id' reason db hcommit =>
    by_cases hid : id = id'
    · subst hid
      exact revoked_of_commit hcommit
    · obtain ⟨p, -, rfl⟩ := Db.revokeProducer_ok hcommit
      exact hrev.of_lookup (lookup_insert_ne hid)
  | _ => exact hrev

lemma Moves.settled {r : EnrollReads} {sh sh' : Shared} {stage : Stage} {next : Next}
    (h : Moves C r sh stage sh' next) (hstage : stage.producerID ≠ some id)
    (hpending : ∀ ch p, sh.pending.lookup ch = some p → p.prod.id ≠ id) :
    next.stage.producerID ≠ some id ∧ ∀ ch p, sh'.pending.lookup ch = some p → p.prod.id ≠ id := by
  cases h with
  | failed => exact ⟨by simp [Next.stage, Stage.producerID], hpending⟩
  | @keep challengeID prod expiresAt =>
    refine ⟨by simp [Next.stage, Stage.producerID], fun ch p hp => ?_⟩
    by_cases hch : ch = challengeID
    · subst hch
      simp only [lookup_insert, Option.some.injEq] at hp
      subst hp
      exact fun hid => hstage (congrArg some hid)
    · rw [lookup_insert_ne hch] at hp
      exact hpending ch p hp
  | @confirm challengeID _ _ p hlook =>
    refine ⟨fun hid => hpending _ _ hlook (Option.some.inj hid), fun ch p hp => ?_⟩
    by_cases hch : ch = challengeID
    · subst hch
      simp at hp
    · rw [lookup_erase_ne hch] at hp
      exact hpending ch p hp
  | answer hnow hasked =>
    obtain ⟨qsig, rfl⟩ := answered_ok hasked
    exact ⟨hstage, hpending⟩
  | register => exact ⟨by simp [Next.stage, Stage.producerID], hpending⟩
  | revoke => exact ⟨by simp [Next.stage, Stage.producerID], hpending⟩
  | revoked => exact ⟨by simp [Next.stage, Stage.producerID], hpending⟩
  | _ => exact ⟨hstage, hpending⟩

lemma Settled.after (h : Settled id s) {i : Nat} {stage : Stage}
    (hcall : s.calls[i]? = some stage) {r : EnrollReads} {sh : Shared} {next : Next}
    (hmoves : Moves C r ⟨s.core.db, s.pending⟩ stage sh next) :
    Settled id (s.after i stage (sh, next)) := by
  have hstage := h.calls stage (mem_of_getElem? hcall)
  obtain ⟨hnext, hpending⟩ := hmoves.settled hstage h.pending
  refine ⟨h.threads, hpending, fun st hst => ?_⟩
  rcases mem_or_eq_of_mem_set hst with hold | rfl
  · exact h.calls st hold
  · exact hnext

lemma Closed.after (h : Closed id s) {i : Nat} {stage : Stage} (hcall : s.calls[i]? = some stage)
    {r : EnrollReads} {sh : Shared} {next : Next}
    (hmoves : Moves C r ⟨s.core.db, s.pending⟩ stage sh next) :
    Closed id (s.after i stage (sh, next)) :=
  ⟨h.toSettled.after hcall hmoves,
    hmoves.revoked_db (h.calls stage (mem_of_getElem? hcall)) h.revoked⟩

lemma Revoked.check {db : Db} (h : Revoked id db) {r : Reads} {o : Option Envelope}
    {env : Envelope} (hok : checkAppend C opts r db o = .ok env) : env.producerID ≠ id := by
  obtain ⟨rfl, -⟩ := checkAppend_ok hok
  simp only [checkAppend, checkProducer, bind_ok, wrapErr_ok, ensure_ok, checkIf_ok, exists_const,
    pure_ok] at hok
  obtain ⟨-, -, prod, hget, ⟨hrev, -⟩, -⟩ := hok
  rintro rfl
  cases (h _ prod hget).symm.trans hrev

/-- **Every action keeps a producer out**, unless it begins to register it. -/
theorem Closed.step (h : Closed id s) {a : Action} (ha : a.begins ≠ some id) :
    Closed id (s.step C opts a) ∧ Spares id s (s.step C opts a) := by
  have haside : ∀ {core : Core.State R}, Aside s.core core → Closed id { s with core := core } :=
    fun hcore => ⟨⟨hcore.threads _ h.threads, h.pending, h.calls⟩,
      h.revoked.of_lookup (by rw [hcore.same.producer])⟩
  cases a with
  | callAppend t => exact ⟨haside (begin_aside _ t fun _ => trivial), .of_eq rfl⟩
  | callCheckpoint t => exact ⟨haside (begin_aside _ t fun _ => trivial), .of_eq rfl⟩
  | thread t r =>
    cases hp : s.core.proc with
    | none =>
      simp only [State.step, hp]
      exact ⟨h, .of_eq rfl⟩
    | some p =>
      obtain ⟨db, p', rets, new, x, heq, hpc, hx, hprod, hnew⟩ := @thread_cases C opts R s p hp
        (fun env => env.producerID ≠ id) t r (fun _ _ _ _ hok => h.revoked.check hok)
        (h.threads p hp t)
      rw [heq]
      refine ⟨⟨⟨h.threads.update hp hpc hx, h.pending, h.calls⟩,
        h.revoked.of_lookup (by rw [hprod])⟩, new, rfl, fun e he env henv => ?_⟩
      rcases hnew with ⟨rfl, -⟩ | ⟨e', env', rfl, henv', hne, -⟩
      · cases he
      · rw [mem_singleton.mp he, henv'] at henv
        cases henv
        exact hne
  | crash =>
    have hcore := @crash_aside C opts R s.core
    exact ⟨⟨⟨hcore.threads _ h.threads, fun ch p hp => (by simp [State.step] at hp),
      fun stage hstage => (by simp [State.step] at hstage)⟩, h.revoked⟩, .of_eq rfl⟩
  | start faults => exact ⟨haside (start_aside _ faults), .of_eq rfl⟩
  | call =>
    simp only [State.step]
    split
    · exact ⟨h, .of_eq rfl⟩
    · refine ⟨⟨⟨h.threads, h.pending, fun stage hstage => ?_⟩, h.revoked⟩, .of_eq rfl⟩
      rcases mem_append.mp hstage with hold | hnew
      · exact h.calls stage hold
      · rw [mem_singleton.mp hnew]
        exact ha
  | resume i =>
    simp only [State.step]
    cases hcall : s.calls[i]? with
    | none => exact ⟨h, .of_eq rfl⟩
    | some stage => exact ⟨h.after hcall (resume_moves stage), .of_eq rfl⟩
  | janitor =>
    refine ⟨⟨⟨h.threads, fun ch p hp => ?_, h.calls⟩, h.revoked⟩, .of_eq rfl⟩
    exact h.pending ch p
      (mem_lookup_iff.mpr (mem_of_mem_filter (mem_lookup_iff.mp hp)))

lemma Closed.run (h : Closed id s) {as : List Action} (has : ∀ a ∈ as, a.begins ≠ some id) :
    Closed id (run (State.step C opts) s as) ∧ Spares id s (run (State.step C opts) s as) := by
  induction as generalizing s with
  | nil => exact ⟨h, .of_eq rfl⟩
  | cons a as ih =>
    obtain ⟨hstep, hspares⟩ := @Closed.step C opts R id s h a (has a mem_cons_self)
    obtain ⟨hrun, hrest⟩ := ih hstep fun b hb => has b (mem_cons_of_mem _ hb)
    exact ⟨hrun, hspares.trans hrest⟩

end

/-! ## The result -/

def Stage.revokes : Stage → Option Bytes
  | revoke id _ => some id
  | _ => none

/-- When `RevokeProducer` commits, nothing is under way for the producer, and nobody begins to
register it before the call has returned. -/
def Orderly (s : State R) : Action → Prop
  | .resume i _ => ∀ id, s.calls[i]?.bind Stage.revokes = some id → Settled id s
  | .call req => ∀ id, req.start.producerID = some id → Stage.revoked id ∉ s.calls
  | _ => True

def Guarded (s : State R) : Prop := ∀ id, Stage.revoked id ∈ s.calls → Closed id s

lemma Moves.commits {r : EnrollReads} {sh sh' : Shared} {stage : Stage} {next : Next} {id : Bytes}
    (h : Moves C r sh stage sh' next) (hnext : next.stage = .revoked id) :
    Revoked id sh'.db ∧ ∃ reason, stage = .revoke id reason := by
  cases h with
  | revoke hcommit =>
    cases hnext
    exact ⟨revoked_of_commit hcommit, _, rfl⟩
  | _ => cases hnext

lemma Guarded.step {s : State R} (h : Guarded s) {a : Action} (ha : Orderly s a) :
    Guarded (s.step C opts a) := by
  intro id hmem
  by_cases hold : Stage.revoked id ∈ s.calls
  · refine ((h id hold).step ?_).1
    cases a with
    | call => exact fun hbegins => ha id hbegins hold
    | _ => exact nofun
  · cases a with
    | resume i r =>
      cases hcall : s.calls[i]? with
      | none =>
        simp only [State.step, hcall] at hmem
        exact absurd hmem hold
      | some stage =>
        have hmoves : Moves C r ⟨s.core.db, s.pending⟩ stage _ _ := resume_moves stage
        simp only [State.step, hcall] at hmem ⊢
        rcases mem_or_eq_of_mem_set hmem with hmem | hnext
        · exact absurd hmem hold
        · obtain ⟨hrevoked, reason, rfl⟩ := hmoves.commits hnext.symm
          exact ⟨(ha id (by rw [hcall]; rfl)).after hcall hmoves, hrevoked⟩
    | call req =>
      simp only [State.step] at hmem
      split at hmem
      · exact absurd hmem hold
      · rcases mem_append.mp hmem with hmem | hmem
        · exact absurd hmem hold
        · cases req <;> cases mem_singleton.mp hmem
    | thread =>
      simp only [State.step] at hmem
      split at hmem <;> exact absurd hmem hold
    | crash => cases hmem
    | _ => exact absurd hmem hold

/-- **Revocation is effective when nothing is under way.** When every revocation finds nothing under
way for its producer, and nobody begins to register the producer before it has returned, then after
a return no entry of the producer gets into the log until somebody begins to register it anew. -/
theorem revocation_effective (C : Crypto) (R : RangeImpl Bytes) (opts : Options)
    {as bs : List Action} {i : Nat} {r : EnrollReads} {id : Bytes}
    (has : Along (State.step C opts) Orderly (init R) (as ++ .resume i r :: bs))
    (hreturn : (run (State.step C opts) (init R) as).calls[i]? = some (.revoked id))
    (hbs : ∀ b ∈ bs, b.begins ≠ some id) :
    let s := run (State.step C opts) (init R) (as ++ [.resume i r])
    let s' := run (State.step C opts) (init R) (as ++ .resume i r :: bs)
    s'.core.db.entry.IsSeq (s'.log.map fun e => some e.marshal) ∧
    ∃ new, s'.log = s.log ++ new ∧
      ∀ e ∈ new, ∀ env, e.envelope = some env → env.producerID ≠ id := by
  intro s s'
  have hlogged : Logged s' :=
    run_invariant (fun _ a (_ : True) h => h.step a) init_logged fun _ _ => trivial
  refine ⟨hlogged.entry, ?_⟩
  have hguarded : Guarded (run (State.step C opts) (init R) as) :=
    along_invariant (fun _ _ h ha => h.step ha) (nofun) (along_append.mp has).1
  have hclosed := hguarded id (mem_of_getElem? hreturn)
  have hafter : Closed id s := by
    show Closed id (run _ _ (as ++ [.resume i r]))
    rw [run_append]
    have hnone : (Action.resume i r).begins ≠ some id := nofun
    exact (@Closed.step C opts R id _ hclosed _ hnone).1
  have hs' : s' = run (State.step C opts) s bs := by
    show run _ _ (as ++ .resume i r :: bs) = run _ (run _ _ (as ++ [.resume i r])) bs
    rw [← run_append, append_assoc, singleton_append]
  rw [hs']
  exact (hafter.run hbs).2

def sampleProducer : Producer := { id := lit "p", publicKey := List.replicate 32 5 }

def sampleRegistered : List Action :=
  [.start fun _ => {}, .call (.registerProducer sampleProducer),
    .resume 0 Enrollment.sampleEnrollReads]

def sampleRevoke (i : Nat) : List Action :=
  [.call (.revokeProducer (lit "p") []), .resume i Enrollment.sampleEnrollReads]

def sampleAppend : List Action :=
  .callAppend 0 (some sampleEnvelope) false :: List.replicate 6 (.thread 0 sampleReads)

def producers (as : List Action) : List (Option Bytes) :=
  (run (State.step .sample {}) (init sampleRange) as).log.map fun e =>
    e.envelope.map Envelope.producerID

def Stage.hasRevoked : Stage → Option Bytes
  | revoked id => some id
  | _ => none

lemma eq_revoked {o : Option Stage} {id : Bytes} (h : o.bind Stage.hasRevoked = some id) :
    o = some (.revoked id) := by
  cases o with
  | none => cases h
  | some stage =>
    cases stage with
    | revoked =>
      cases h
      rfl
    | _ => cases h

theorem revocation_effective_sample :
    producers (sampleRegistered ++ sampleRevoke 1 ++
      .resume 1 Enrollment.sampleEnrollReads :: sampleAppend) = [] ∧
    ∃ new, (run (State.step .sample {}) (init sampleRange) (sampleRegistered ++ sampleRevoke 1 ++
        .resume 1 Enrollment.sampleEnrollReads :: sampleAppend)).log =
      (run (State.step .sample {}) (init sampleRange) (sampleRegistered ++ sampleRevoke 1 ++
        [.resume 1 Enrollment.sampleEnrollReads])).log ++ new ∧
      ∀ e ∈ new, ∀ env, e.envelope = some env → env.producerID ≠ lit "p" := by
  -- Nothing is under way when the revocation commits.
  have hsettled : Settled (lit "p") (run (State.step .sample {}) (init sampleRange)
      (sampleRegistered ++ [.call (.revokeProducer (lit "p") [])])) := by
    refine ⟨fun p hp t => ?_, fun ch p hp => ?_, fun stage hstage => ?_⟩
    · have hidle : (run (State.step .sample {}) (init sampleRange) (sampleRegistered ++
          [.call (.revokeProducer (lit "p") [])])).core.proc.map Proc.pc =
            some fun _ => .idle := rfl
      rw [hp, Option.map_some, Option.some.injEq] at hidle
      rw [hidle]
      trivial
    · cases hp
    · have hcalls : (run (State.step .sample {}) (init sampleRange) (sampleRegistered ++
          [.call (.revokeProducer (lit "p") [])])).calls.map Stage.producerID = [none, none] := by
        decide +kernel
      have hmem := mem_map_of_mem (f := Stage.producerID) hstage
      rw [hcalls] at hmem
      simp only [mem_cons, not_mem_nil, or_false, or_self] at hmem
      simp [hmem]
  have has : Along (State.step .sample {}) Orderly (init sampleRange)
      (sampleRegistered ++ sampleRevoke 1 ++
        .resume 1 Enrollment.sampleEnrollReads :: sampleAppend) := by
    simp only [sampleRegistered, sampleRevoke, sampleAppend, cons_append, nil_append,
      List.replicate, Along]
    refine ⟨trivial, fun id _ h => (by cases h), fun id h => (by cases h), fun id h => (by cases h),
      fun id h => ?_, fun id h => (by cases h), trivial, trivial, trivial, trivial, trivial,
      trivial, trivial, trivial⟩
    cases h
    exact hsettled
  have hreturn := @eq_revoked ((run (State.step .sample {}) (init sampleRange)
    (sampleRegistered ++ sampleRevoke 1)).calls[1]?) (lit "p") (by decide +kernel)
  exact ⟨by decide +kernel, (revocation_effective .sample sampleRange {} has hreturn (by decide)).2⟩

def Escapes (before : List Action) (i : Nat) (after : List Action) : Prop :=
  let revoked := sampleRegistered ++ before ++ sampleRevoke i
  ((run (State.step .sample {}) (init sampleRange) revoked).calls[i]?).bind Stage.hasRevoked =
      some (lit "p") ∧
    (∀ b ∈ after, b.begins ≠ some (lit "p")) ∧
    producers (revoked ++ [.resume i Enrollment.sampleEnrollReads]) = [] ∧
    producers (revoked ++ .resume i Enrollment.sampleEnrollReads :: after) = [some (lit "p")]

instance (before : List Action) (i : Nat) (after : List Action) :
    Decidable (Escapes before i after) :=
  inferInstanceAs (Decidable (_ ∧ _ ∧ _ ∧ _))

/-- **A revoked producer gets an entry into the log**, with an append that was past its checks, and
with the answer to a challenge that was begun before. -/
theorem revoked_producer_appends :
    Escapes [.callAppend 0 (some sampleEnvelope) false, .thread 0 sampleReads] 1
      (List.replicate 5 (.thread 0 sampleReads)) ∧
    Escapes [.call (.beginEnrollment Enrollment.sampleRequest),
        .resume 1 Enrollment.sampleEnrollReads, .resume 1 Enrollment.sampleEnrollReads] 2
      (.call (.confirmEnrollment (hex (List.replicate 16 2)) Enrollment.sampleAnswer []) ::
        List.replicate 5 (.resume 3 Enrollment.sampleEnrollReads) ++ sampleAppend) := by
  decide +kernel

end Stele.Core.Ceremony
