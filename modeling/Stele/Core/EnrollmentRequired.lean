import Stele.Core.Enrollment

/-!
# Enrollment required

With `RequireEnrollment` on, `AppendCtx` asks for the operator's signature of a record and not for
the producer's. What it admits is as good as the registry.
-/

namespace Stele.Core

open Lib List Function AList

variable {C : Crypto} {opts : Options} {R : RangeImpl Bytes}

/-! ## The steps of a thread -/

def Pc.Carries (P : Envelope → Prop) : Pc → Prop
  | .appendLock env _ => P env
  | .appendRecord _ env _ => P env
  | .appendHead _ env _ => P env
  | .appendEntry e => ∃ env, e.envelope = some env ∧ P env
  | _ => True

/-- The stores differ in neither the entries nor the registry. -/
structure SameLog (db db' : Db) : Prop where
  entry : db'.entry = db.entry
  size : db'.size = db.size
  producer : db'.producer = db.producer

/-- Thread `t` goes to a place where it carries what it may carry, and commits no entry. -/
def Quiet (P : Envelope → Prop) (t : Tid) (db : Db) (p : Proc R) (db' : Db) (p' : Proc R) : Prop :=
  SameLog db db' ∧ ∃ x : Pc, p'.pc = Function.update p.pc t x ∧ x.Carries P

lemma threadStep_cases (C : Crypto) (opts : Options) (P : Envelope → Prop) (t : Tid)
    (r : Reads) (db : Db) (p : Proc R)
    (hcheck : ∀ o honeypot env, p.pc t = .appendCheck o honeypot →
      checkAppend C opts r db o = .ok env → P env)
    (hP : (p.pc t).Carries P) :
    (∃ e db', p.pc t = .appendEntry e ∧ db.appendEntry r.fault e = (db', .ok ()) ∧
      threadStep C opts t r db p = (db', p.goto t (.appendTree e), none)) ∨
    ((∀ e, p.pc t = .appendEntry e → ∃ f, (db.appendEntry r.fault e).2 = .error f) ∧
      Quiet P t db p (threadStep C opts t r db p).1 (threadStep C opts t r db p).2.1) := by
  have hsame : SameLog db db := ⟨rfl, rfl, rfl⟩
  have hacts := threadStep_acts C opts t r db p
  generalize threadStep C opts t r db p = out at hacts
  cases hacts with
  | stay hpc hfree =>
    refine .inr ⟨fun e he => ?_, hsame, p.pc t, (update_eq_self t p.pc).symm, hP⟩
    cases hpc.symm.trans he
    cases hfree
  | check hpc hok => exact .inr ⟨by rw [hpc]; nofun, hsame, _, rfl, hcheck _ _ _ hpc hok⟩
  | lock hpc =>
    rw [hpc] at hP
    exact .inr ⟨by rw [hpc]; nofun, hsame, _, rfl, hP⟩
  | @record idx env _ _ hpc hrec =>
    rw [hpc] at hP
    obtain ⟨replay, hframe⟩ :=
      db.checkAndRecordEnvelope_frame r.fault opts.replayTTL r.now (env.hash C) idx
    rw [hrec] at hframe
    cases hframe
    exact .inr ⟨by rw [hpc]; nofun, ⟨rfl, rfl, rfl⟩, _, rfl, hP⟩
  | head hpc =>
    rw [hpc] at hP
    exact .inr ⟨by rw [hpc]; nofun, hsame, _, rfl, _, rfl, hP⟩
  | commit hpc happ => exact .inl ⟨_, _, hpc, happ, rfl⟩
  | publish hpc | ckptLock hpc | ckptHead hpc | sign hpc | gather hpc | stuck hpc =>
    exact .inr ⟨by rw [hpc]; nofun, hsame, _, rfl, trivial⟩
  | @save c _ hpc hsave =>
    obtain ⟨ckpt, hframe⟩ := db.saveCheckpoint_frame r.fault c.size c.marshal
    rw [hsave] at hframe
    cases hframe
    exact .inr ⟨by rw [hpc]; nofun, ⟨rfl, rfl, rfl⟩, _, rfl, trivial⟩
  | fail f hpc hfree =>
    refine .inr ⟨fun e he => ?_, hsame, _, rfl, trivial⟩
    cases hpc.symm.trans he
    cases hfree
  | failLocked f hpc _ hentry =>
    exact .inr ⟨fun e he => hentry e (hpc.symm.trans he), hsame, _, rfl, trivial⟩

/-- What an action outside the threads and the registry leaves: the log, the registry, and the
envelopes that the threads carry. -/
structure Aside (s s' : State R) : Prop where
  same : SameLog s.db s'.db
  threads : ∀ P : Tid → Envelope → Prop,
    (∀ p, s.proc = some p → ∀ t, (p.pc t).Carries (P t)) →
      ∀ p, s'.proc = some p → ∀ t, (p.pc t).Carries (P t)

lemma begin_aside (s : State R) (t : Tid) {x : Pc} (hx : ∀ P, x.Carries P) :
    Aside s (begin s t x) := by
  unfold begin
  split
  · exact ⟨⟨rfl, rfl, rfl⟩, fun P h => h⟩
  · rename_i q hproc
    split
    · refine ⟨⟨rfl, rfl, rfl⟩, fun P h p hp u => ?_⟩
      cases hp
      simp only [Proc.goto]
      by_cases hut : u = t
      · subst hut
        rw [update_self]
        exact hx _
      · rw [update_of_ne hut]
        exact h q hproc u
    · exact ⟨⟨rfl, rfl, rfl⟩, fun P h => h⟩

lemma crash_aside (s : State R) : Aside s (step C opts s .crash) := ⟨⟨rfl, rfl, rfl⟩, nofun⟩

/-- `New` writes the leaf mirror only, and its threads are in no call. -/
lemma start_aside (s : State R) (faults : Nat → ReplayFaults) :
    Aside s (step C opts s (.start faults)) := by
  cases hproc : s.proc with
  | some =>
    simp only [step, hproc]
    exact ⟨⟨rfl, rfl, rfl⟩, fun P h => h⟩
  | none =>
    obtain ⟨leaf, hleaf⟩ := newLog_sameButLeaf (C := C) (R := R) opts faults s.db
    rcases hnew : newLog C R opts faults s.db with ⟨db, f | tree⟩
    all_goals
      rw [hnew] at hleaf
      simp only at hleaf
      subst hleaf
      simp only [step, hproc, hnew]
    · exact ⟨⟨rfl, rfl, rfl⟩, fun P h p hp => h p (hproc.trans hp)⟩
    · refine ⟨⟨rfl, rfl, rfl⟩, fun P h p hp t => ?_⟩
      cases hp
      trivial

namespace Enrollment

/-! ## What was admitted -/

structure Check where
  db : Db
  reads : Reads

structure Admission where
  entry : Entry
  check : Check

/-- The operator, what each thread's last call was checked against, and every entry that was
committed. -/
structure Traced (R : RangeImpl Bytes) where
  state : State R
  checked : Tid → Option Check
  admitted : List Admission

def Traced.init (R : RangeImpl Bytes) : Traced R := ⟨Enrollment.init R, fun _ => none, []⟩

def Traced.step (C : Crypto) (opts : Options) (s : Traced R) (a : Action) : Traced R :=
  let next := Enrollment.step C opts s.state a
  match a, s.state.core.proc with
  | .core (.thread t r), some p =>
    match p.pc t with
    | .appendCheck .. => ⟨next, Function.update s.checked t (some ⟨s.state.core.db, r⟩), s.admitted⟩
    | .appendEntry e =>
      match (s.state.core.db.appendEntry r.fault e).2, s.checked t with
      | .ok (), some check => ⟨next, s.checked, s.admitted ++ [⟨e, check⟩]⟩
      | _, _ => ⟨next, s.checked, s.admitted⟩
    | _ => ⟨next, s.checked, s.admitted⟩
  | _, _ => ⟨next, s.checked, s.admitted⟩

/-! ## The invariant -/

/-- What an action has to meet: a record that is registered with an operator signature carries the
producer's consent, nobody enrolls a producer without it, and the terms of a ceremony are UTF-8. -/
def Action.Vouches (C : Crypto) : Action → Prop
  | .core (.registerProducer _ _ p) => p.Vouched C p.id
  | .issueEnrollment .. => False
  | .beginEnrollment _ req => Utf8 req.id ∧ Utf8 req.attestationType ∧ Utf8 req.scope
  | _ => True

def Check.Admits (C : Crypto) (opts : Options) (check : Check) (env : Envelope) : Prop :=
  checkAppend C opts check.reads check.db (some env) = .ok env ∧ check.db.Vouched C

structure Traced.Inv (C : Crypto) (opts : Options) (s : Traced R) : Prop where
  vouched : s.state.core.db.Vouched C
  pending : ∀ id p, s.state.pending.lookup id = some p → p.prod.TermsUtf8
  threads : ∀ p, s.state.core.proc = some p → ∀ t, (p.pc t).Carries fun env =>
    ∃ check, s.checked t = some check ∧ check.Admits C opts env
  entry : s.state.core.db.entry.IsSeq (s.admitted.map fun a => some a.entry.marshal)
  size : s.state.core.db.readSize = .ok s.admitted.length
  admitted : ∀ a ∈ s.admitted, ∃ env, a.entry.envelope = some env ∧ a.check.Admits C opts env

lemma Traced.init_inv : (Traced.init R).Inv C opts where
  vouched id doc hdoc := by simp [Traced.init, Enrollment.init, Core.init, Db.empty] at hdoc
  pending id p hp := by simp [Traced.init, Enrollment.init] at hp
  threads p hp := by simp [Traced.init, Enrollment.init, Core.init] at hp
  entry := OrdMap.isSeq_empty
  size := rfl
  admitted a ha := by simp [Traced.init] at ha

def Action.isThread : Action → Bool
  | .core (.thread ..) => true
  | _ => false

lemma Traced.step_eq {s : Traced R} {a : Action} (ha : a.isThread = false) :
    s.step C opts a = ⟨Enrollment.step C opts s.state a, s.checked, s.admitted⟩ := by
  unfold Traced.step
  split
  · cases ha
  · rfl

namespace Traced.Inv

variable {s : Traced R} (h : s.Inv C opts)
include h

lemma keep {state : State R} {checked : Tid → Option Check}
    (hdb : state.core.db.entry = s.state.core.db.entry ∧ state.core.db.size = s.state.core.db.size)
    (hvouched : state.core.db.Vouched C)
    (hpending : ∀ id p, state.pending.lookup id = some p → p.prod.TermsUtf8)
    (hthreads : ∀ p, state.core.proc = some p → ∀ t, (p.pc t).Carries fun env =>
      ∃ check, checked t = some check ∧ check.Admits C opts env) :
    (⟨state, checked, s.admitted⟩ : Traced R).Inv C opts where
  vouched := hvouched
  pending := hpending
  threads := hthreads
  entry := by
    show state.core.db.entry.IsSeq _
    rw [hdb.1]
    exact h.entry
  size := by
    show state.core.db.readSize = _
    rw [Db.readSize, hdb.2]
    exact h.size
  admitted := h.admitted

lemma quiet {p p' : Proc R} (hp : s.state.core.proc = some p) {db : Db} {rets : List Ret}
    {checked : Tid → Option Check} {t : Tid} (hchecked : ∀ u, u ≠ t → checked u = s.checked u)
    (hq : Quiet (fun env => ∃ check, checked t = some check ∧ check.Admits C opts env) t
      s.state.core.db p db p') :
    (⟨⟨⟨db, some p', rets⟩, s.state.pending⟩, checked, s.admitted⟩ : Traced R).Inv C opts := by
  obtain ⟨hsame, x, hpc, hx⟩ := hq
  refine h.keep ⟨hsame.entry, hsame.size⟩ (h.vouched.of_eq hsame.producer) h.pending ?_
  intro q hq u
  cases hq
  rw [hpc]
  by_cases hut : u = t
  · subst hut
    rw [update_self]
    exact hx
  · rw [update_of_ne hut, hchecked u hut]
    exact h.threads p hp u

lemma commit {p : Proc R} (hp : s.state.core.proc = some p) {fault : Option Err} {db : Db}
    {rets : List Ret} {t : Tid} {e : Entry} (hpc : p.pc t = .appendEntry e)
    (happ : s.state.core.db.appendEntry fault e = (db, .ok ())) {check : Check}
    (hcheck : s.checked t = some check) :
    (⟨⟨⟨db, some (p.goto t (.appendTree e)), rets⟩, s.state.pending⟩, s.checked,
      s.admitted ++ [⟨e, check⟩]⟩ : Traced R).Inv C opts := by
  obtain ⟨hsize, rfl⟩ := Db.appendEntry_ok happ
  have hidx : e.index = s.admitted.length := Except.ok.inj (hsize.symm.trans h.size)
  have hcarries := h.threads p hp t
  rw [hpc] at hcarries
  obtain ⟨env, henv, check', hcheck', hadmits⟩ := hcarries
  cases hcheck.symm.trans hcheck'
  refine ⟨h.vouched.of_eq rfl, h.pending, ?_, ?_, ?_, ?_⟩
  · intro q hq u
    cases hq
    simp only [Proc.goto]
    by_cases hut : u = t
    · subst hut
      rw [update_self]
      trivial
    · rw [update_of_ne hut]
      exact h.threads p hp u
  · have hseq := h.entry.set (some e.marshal)
    rw [length_map, ← hidx] at hseq
    rw [map_append]
    exact hseq
  · simp [Db.readSize, hidx]
  · intro a ha
    rcases mem_append.mp ha with ha | ha
    · exact h.admitted a ha
    · rw [mem_singleton.mp ha]
      exact ⟨env, henv, hadmits⟩

lemma thread_step (t : Tid) (r : Reads) :
    (s.step C opts (.core (.thread t r))).Inv C opts := by
  cases hp : s.state.core.proc with
  | none =>
    simp only [Traced.step, Enrollment.step, Core.step, hp]
    exact h
  | some p =>
    by_cases hchk : ∃ o honeypot, p.pc t = .appendCheck o honeypot
    · obtain ⟨o, honeypot, hpc⟩ := hchk
      let check : Check := ⟨s.state.core.db, r⟩
      have hother : ∀ u, u ≠ t → Function.update s.checked t (some check) u = s.checked u :=
        fun u hut => update_of_ne hut _ _
      have hcases := threadStep_cases C opts (fun env =>
        ∃ c, Function.update s.checked t (some check) t = some c ∧ c.Admits C opts env)
        t r s.state.core.db p ?_ ?_
      · rcases hcases with ⟨e, db', hpc', -⟩ | ⟨-, hq⟩
        · cases hpc.symm.trans hpc'
        · simp only [Traced.step, Enrollment.step, Core.step, hp, hpc]
          exact h.quiet hp hother hq
      · intro o' honeypot' env hpc' hok
        obtain ⟨rfl, -⟩ := checkAppend_ok hok
        exact ⟨check, update_self _ _ _, hok, h.vouched⟩
      · rw [hpc]
        trivial
    · rcases threadStep_cases C opts _ t r s.state.core.db p
          (fun o honeypot env hpc => absurd ⟨o, honeypot, hpc⟩ hchk) (h.threads p hp t) with
        ⟨e, db', hpc, happ, heq⟩ | ⟨hfail, hq⟩
      · have hcarries := h.threads p hp t
        rw [hpc] at hcarries
        obtain ⟨-, -, check, hcheck, -⟩ := hcarries
        simp only [Traced.step, Enrollment.step, Core.step, hp, hpc, happ, hcheck, heq]
        exact h.commit hp hpc happ hcheck
      · have hstep : s.step C opts (.core (.thread t r)) =
            ⟨Enrollment.step C opts s.state (.core (.thread t r)), s.checked, s.admitted⟩ := by
          simp only [Traced.step, hp]
          split
          · rename_i o honeypot hpc
            exact absurd ⟨o, honeypot, hpc⟩ hchk
          · rename_i e hpc
            obtain ⟨f, hf⟩ := hfail e hpc
            simp only [hf]
          · rfl
        rw [hstep]
        simp only [Enrollment.step, Core.step, hp]
        exact h.quiet hp (fun _ _ => rfl) hq

variable {pending : AList fun _ : Bytes => Pending}

lemma aside {a : Action} (ha : a.isThread = false) {core : Core.State R}
    (hstate : Enrollment.step C opts s.state a = ⟨core, pending⟩) (haside : Aside s.state.core core)
    (hpending : ∀ id p, pending.lookup id = some p → p.prod.TermsUtf8) :
    (s.step C opts a).Inv C opts := by
  rw [Traced.step_eq ha, hstate]
  exact h.keep ⟨haside.same.entry, haside.same.size⟩ (h.vouched.of_eq haside.same.producer) hpending
    (haside.threads _ h.threads)

lemma registry_step {a : Action} (ha : a.isThread = false) {db : Db}
    (hstate : Enrollment.step C opts s.state a =
      ⟨⟨db, s.state.core.proc, s.state.core.returned⟩, pending⟩)
    (hframe : ∃ producer, db = { s.state.core.db with producer := producer })
    (hvouched : db.Vouched C) (hpending : ∀ id p, pending.lookup id = some p → p.prod.TermsUtf8) :
    (s.step C opts a).Inv C opts := by
  obtain ⟨producer, rfl⟩ := hframe
  rw [Traced.step_eq ha, hstate]
  exact h.keep ⟨rfl, rfl⟩ hvouched hpending h.threads

lemma step {a : Action} (ha : a.Vouches C) : (s.step C opts a).Inv C opts := by
  cases a with
  | core a =>
    cases a with
    | callAppend t =>
      exact h.aside rfl rfl (begin_aside _ t fun _ => trivial) h.pending
    | callCheckpoint t => exact h.aside rfl rfl (begin_aside _ t fun _ => trivial) h.pending
    | thread t r => exact h.thread_step t r
    | registerProducer fault now p =>
      exact h.registry_step rfl rfl (s.state.core.db.registerProducer_frame fault now p)
        (h.vouched.registerProducer fault now ha) h.pending
    | revokeProducer fault now id reason =>
      exact h.registry_step rfl rfl (s.state.core.db.revokeProducer_frame fault now id reason)
        (h.vouched.revokeProducer fault now id reason) h.pending
    | crash => exact h.aside rfl rfl (crash_aside _) (by simp)
    | start faults => exact h.aside rfl rfl (start_aside _ faults) h.pending
  | issueEnrollment => exact ha.elim
  | beginEnrollment r req =>
    by_cases hnone : s.state.core.proc.isNone = true
    · refine h.registry_step rfl ?_ ⟨_, rfl⟩ h.vouched h.pending
      simp only [Enrollment.step, if_pos hnone]
    · cases hbegin : Core.beginEnrollment r req with
      | error =>
        refine h.registry_step rfl ?_ ⟨_, rfl⟩ h.vouched h.pending
        simp only [Enrollment.step, if_neg hnone, hbegin]
      | ok out =>
        obtain ⟨id, challenge, p⟩ := out
        have hutf8 : p.prod.TermsUtf8 := by
          simp only [Core.beginEnrollment, bind_ok, pure_ok] at hbegin
          obtain ⟨_, -, _, -, _, -, _, -, hout⟩ := hbegin
          cases hout
          exact ha
        have hstate : Enrollment.step C opts s.state (.beginEnrollment r req) =
            ⟨s.state.core, s.state.pending.insert id p⟩ := by
          simp only [Enrollment.step, if_neg hnone, hbegin]
        refine h.registry_step rfl hstate ⟨_, rfl⟩ h.vouched fun id' p' hp' => ?_
        by_cases hid : id' = id
        · subst hid
          simp only [lookup_insert, Option.some.injEq] at hp'
          exact hp' ▸ hutf8
        · rw [lookup_insert_ne hid] at hp'
          exact h.pending id' p' hp'
  | confirmEnrollment r id =>
    cases hlook : s.state.pending.lookup id with
    | none =>
      refine h.registry_step rfl ?_ ⟨_, rfl⟩ h.vouched h.pending
      simp only [Enrollment.step, hlook]
    | some p =>
      refine h.registry_step rfl (by simp only [Enrollment.step, hlook]; rfl)
        (enrollRecord_frame r _ _) ?_ fun id' p' hp' => ?_
      · exact enrollRecord_vouched h.vouched r fun prod hprod =>
          confirmRecord_vouched (h.pending id p hlook) hprod
      · by_cases hid : id' = id
        · subst hid
          simp at hp'
        · rw [lookup_erase_ne hid] at hp'
          exact h.pending id' p' hp'
  | janitor =>
    refine h.registry_step rfl rfl ⟨_, rfl⟩ h.vouched fun id p hp => ?_
    have hmem := mem_of_mem_filter (mem_lookup_iff.mp hp)
    exact h.pending id p (mem_lookup_iff.mpr hmem)

end Traced.Inv

lemma Traced.step_state (s : Traced R) (a : Action) :
    (s.step C opts a).state = Enrollment.step C opts s.state a := by
  unfold Traced.step
  split
  · split
    · rfl
    · split <;> rfl
    · rfl
  · rfl

lemma run_traced_state (s : Traced R) (as : List Action) :
    (run (Traced.step C opts) s as).state = run (Enrollment.step C opts) s.state as := by
  induction as generalizing s with
  | nil => rfl
  | cons a as ih => rw [run_cons, run_cons, ih, Traced.step_state]

lemma run_vouched {as : List Action} (has : ∀ a ∈ as, a.Vouches C) :
    (run (Traced.step C opts) (Traced.init R) as).Inv C opts := by
  have hstep : ∀ (s : Traced R) (a : Action), a.Vouches C → s.Inv C opts →
      (s.step C opts a).Inv C opts := fun _ _ ha h => h.step ha
  exact run_invariant hstep Traced.init_inv has

/-! ## The result -/

lemma Check.Admits.record {check : Check} {env : Envelope} (h : check.Admits C opts env)
    (hreq : opts.requireEnrollment = true) :
    ∃ prod, check.db.getProducer check.reads.fault env.producerID = .ok prod ∧
      prod.id = env.producerID ∧ prod.publicKey = env.publicKey ∧ prod.hasEnrollment ∧
      ¬ prod.isExpired check.reads.now ∧
      prod.verifyEnrollment C check.reads.chainPubKey check.reads.qChainPubKey = .ok () ∧
      prod.verifyConsent C = .ok () := by
  obtain ⟨hok, hvouched⟩ := h
  simp only [checkAppend, checkProducer, checkEnrollment, bind_ok, wrapErr_ok, ensure_ok,
    checkIf_ok, exists_const, pure_ok] at hok
  obtain ⟨-, -, prod, hget, ⟨-, hkey, -, henroll⟩, -⟩ := hok
  obtain ⟨henrolled, hexpired, hverify⟩ := henroll hreq
  obtain ⟨hid, hconsent⟩ := hvouched.getProducer hget henrolled
  exact ⟨prod, hget, hid, hkey, henrolled, hexpired, hverify, hconsent⟩

def sampleKey : Bytes := List.replicate 32 1

def sampleEnrollReads : EnrollReads where
  now := 1
  activeEpoch := 0
  sign := fun msg => .ok (0, Crypto.sample.edSign sampleKey msg)
  idRaw := .ok (List.replicate 16 2)
  nonce := .ok (List.replicate 32 3)

def sampleRequest : EnrollmentRequest where
  id := lit "p"
  publicKey := List.replicate 32 5

def sampleAnswer : Bytes :=
  Crypto.sample.edSign (List.replicate 32 5)
    (sampleRequest.producer 1 0 (List.replicate 32 3)).challengeBytes

def sampleSubmission : List Action :=
  .core (.callAppend 0 (some sampleEnvelope) false) ::
    List.replicate 6 (.core (.thread 0 { sampleReads with
      chainPubKey := fun epoch => if epoch = 0 then some sampleKey else none }))

def sampleCeremony : List Action :=
  [.core (.start fun _ => {}), .beginEnrollment sampleEnrollReads sampleRequest,
    .confirmEnrollment sampleEnrollReads (hex (List.replicate 16 2)) sampleAnswer []] ++
  sampleSubmission

lemma sampleCeremony_vouches : ∀ a ∈ sampleCeremony, a.Vouches Crypto.sample := by
  intro a ha
  simp only [sampleCeremony, sampleSubmission, mem_append, mem_cons, not_mem_nil,
    mem_replicate, or_false] at ha
  rcases ha with (rfl | rfl | rfl) | rfl | ⟨-, rfl⟩
  · trivial
  · exact ⟨by decide, by decide, by decide⟩
  · trivial
  · trivial
  · trivial

def sampleAdmitted : Traced sampleRange :=
  run (Traced.step Crypto.sample { requireEnrollment := true }) (Traced.init sampleRange)
    sampleCeremony

def sampleUnilateral : Traced sampleRange :=
  run (Traced.step Crypto.sample { requireEnrollment := true }) (Traced.init sampleRange)
    ([.core (.start fun _ => {}), .issueEnrollment sampleEnrollReads sampleRequest] ++
      sampleSubmission)

end Enrollment

end Stele.Core
