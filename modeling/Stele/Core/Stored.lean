import Stele.Core.Invariant
import Stele.Storage.Reads

/-!
# Stored checkpoints

What the `ckpt/` records of an operator's store say about its log.
-/

namespace Stele.Core

open Lib

variable {C : Crypto} {R : RangeImpl Bytes} {RngHolds : R.Rng → List Bytes → Prop}

def Recorded (C : Crypto) (es : List Entry) (db : Db) : Prop :=
  ∀ n doc, db.ckpt.get n = some doc → ∃ c : Checkpoint,
    doc = some c.marshal ∧ c.size = n ∧ Commits C es n c.rootHash c.headHash

variable {es : List Entry} {db : Db}

lemma Recorded.mono {es' : List Entry} (h : Recorded C es db) (hp : es <+: es') :
    Recorded C es' db := by
  intro n doc hn
  obtain ⟨c, hdoc, hsize, hcommits⟩ := h n doc hn
  exact ⟨c, hdoc, hsize, hcommits.mono hp⟩

lemma Recorded.of_eq {db' : Db} (h : Recorded C es db) (heq : db'.ckpt = db.ckpt) :
    Recorded C es db' := by
  intro n doc hn
  rw [heq] at hn
  exact h n doc hn

variable {c : Checkpoint}

lemma Recorded.set {db' : Db} (h : Recorded C es db)
    (hc : Commits C es c.size c.rootHash c.headHash)
    (heq : db'.ckpt = db.ckpt.set c.size (some c.marshal)) : Recorded C es db' := by
  intro n doc hn
  rw [heq] at hn
  by_cases hsize : n = c.size
  · subst hsize
    rw [OrdMap.get_set_self] at hn
    cases hn
    exact ⟨c, rfl, rfl, hc⟩
  · rw [OrdMap.get_set_ne _ hsize] at hn
    exact h n doc hn

lemma threadStep_ckpt (opts : Options) (t : Tid) (r : Reads) (db : Db) (p : Proc R) :
    (threadStep C opts t r db p).1.ckpt = db.ckpt ∨
    ∃ c, p.pc t = .ckptSave c ∧
      (threadStep C opts t r db p).1.ckpt = db.ckpt.set c.size (some c.marshal) := by
  have hacts := threadStep_acts C opts t r db p
  generalize threadStep C opts t r db p = out at hacts
  cases hacts with
  | @record idx env _ _ _ hrec =>
    obtain ⟨replay, hframe⟩ :=
      db.checkAndRecordEnvelope_frame r.fault opts.replayTTL r.now (env.hash C) idx
    rw [hrec] at hframe
    cases hframe
    exact .inl rfl
  | commit _ happ =>
    cases (Db.appendEntry_ok happ).2
    exact .inl rfl
  | save hpc hsave =>
    refine .inr ⟨_, hpc, ?_⟩
    cases Db.update_ok hsave
    rfl
  | _ => exact .inl rfl

def Pc.carried : Pc → Option Checkpoint
  | .ckptGather c => some c
  | .ckptSave c => some c
  | _ => none

section
variable (C) (opts : Options) (s : State R)

/-- What an action can do to the operator. -/
inductive StepActs : Action → State R → Prop
  | store {a : Action} {db : Db} (hckpt : db.ckpt = s.db.ckpt) : StepActs a { s with db := db }
  | begun {a : Action} {p : Proc R} {t : Tid} {x : Pc} (hproc : s.proc = some p)
      (hx : x.carried = none) : StepActs a { s with proc := some (p.goto t x) }
  | thread {t : Tid} {r : Reads} {p : Proc R} (hproc : s.proc = some p) :
      StepActs (.thread t r) ⟨(threadStep C opts t r s.db p).1,
        some (threadStep C opts t r s.db p).2.1,
        s.returned ++ (threadStep C opts t r s.db p).2.2.toList⟩
  | crash : StepActs .crash { s with proc := none }
  | started {faults : Nat → ReplayFaults} {db : Db} {tree : Tree R} (hckpt : db.ckpt = s.db.ckpt)
      (hnew : newLog C R opts faults s.db = (db, .ok tree)) :
      StepActs (.start faults) { s with db := db, proc := some ⟨tree, none, fun _ => .idle⟩ }

lemma begin_acts (a : Action) (t : Tid) {x : Pc} (hx : x.carried = none) :
    StepActs C opts s a (begin s t x) := by
  unfold begin
  split
  · exact .store rfl
  · rename_i p hproc
    split
    · exact .begun hproc hx
    · exact .store rfl

lemma step_acts (a : Action) : StepActs C opts s a (step C opts s a) := by
  cases a with
  | callAppend t => exact begin_acts C opts s _ t rfl
  | callCheckpoint t => exact begin_acts C opts s _ t rfl
  | thread =>
    simp only [step]
    split
    · exact .store rfl
    · exact .thread (by assumption)
  | registerProducer fault now p =>
    obtain ⟨producer, hframe⟩ := s.db.registerProducer_frame fault now p
    exact .store (by rw [hframe])
  | revokeProducer fault now id reason =>
    obtain ⟨producer, hframe⟩ := s.db.revokeProducer_frame fault now id reason
    exact .store (by rw [hframe])
  | crash => exact .crash
  | start faults =>
    obtain ⟨leaf, hleaf⟩ := newLog_sameButLeaf (C := C) (R := R) opts faults s.db
    have hckpt := congrArg Db.ckpt hleaf
    simp only [step]
    split
    · exact .store rfl
    · split
      · rename_i hnew
        rw [hnew] at hckpt
        exact .store hckpt
      · rename_i hnew
        rw [hnew] at hckpt
        exact .started hckpt hnew

lemma step_ckpt (a : Action) :
    (step C opts s a).db.ckpt = s.db.ckpt ∨
    ∃ t r p c, a = .thread t r ∧ s.proc = some p ∧ p.pc t = .ckptSave c ∧
      (step C opts s a).db.ckpt = s.db.ckpt.set c.size (some c.marshal) := by
  have hacts := step_acts C opts s a
  generalize step C opts s a = s' at hacts ⊢
  cases hacts with
  | store hckpt => exact .inl hckpt
  | started hckpt => exact .inl hckpt
  | @thread t r p hproc =>
    rcases threadStep_ckpt (C := C) opts t r s.db p with hsame | ⟨c, hpc, hset⟩
    · exact .inl hsame
    · exact .inr ⟨t, r, p, c, rfl, hproc, hpc, hset⟩
  | _ => exact .inl rfl

end

variable {s : State R}

lemma step_recorded (hR : R.Lawful (hashChildren C) (emptyRoot C) RngHolds) (opts : Options)
    (h : s.Inv C RngHolds es) (hrec : Recorded C es s.db) {a : Action} (ha : a.IsUtf8) :
    ∃ es', (step C opts s a).Inv C RngHolds es' ∧ Recorded C es' (step C opts s a).db := by
  obtain ⟨es', hpre, hinv⟩ := step_inv h hR opts ha
  refine ⟨es', hinv, ?_⟩
  replace hrec := hrec.mono hpre
  rcases step_ckpt C opts s a with hsame | ⟨t, r, p, c, rfl, hproc, hpc, hset⟩
  · exact hrec.of_eq hsame
  · have hok := (h.proc p hproc).ok t
    rw [hpc] at hok
    exact hrec.set (Commits.mono hok hpre) hset

lemma run_recorded (hR : R.Lawful (hashChildren C) (emptyRoot C) RngHolds) (opts : Options)
    {as : List Action} (has : ∀ a ∈ as, a.IsUtf8)
    (hes : (run (step C opts) (init R) as).db.Holds C es) :
    Recorded C es (run (step C opts) (init R) as).db := by
  have hinv : ∃ es, (run (step C opts) (init R) as).Inv C RngHolds es ∧
      Recorded C es (run (step C opts) (init R) as).db := by
    refine run_invariant
      (I := fun s : State R => ∃ es, s.Inv C RngHolds es ∧ Recorded C es s.db)
      (fun s a ha hs => ?_) ⟨[], init_inv, nofun⟩ has
    obtain ⟨es, hs, hrec⟩ := hs
    exact step_recorded hR opts hs hrec ha
  obtain ⟨es', hs, hrec⟩ := hinv
  rwa [hs.db.unique hes] at hrec

/-! ## The latest checkpoint -/

def latestCheckpoint (size ckpt : Option Err) (db : Db) : Res (Option Checkpoint) := do
  match ← db.latestCheckpoint size ckpt with
  | none => return none
  | some (body, _) => return some (← body.decode Checkpoint.unmarshal)

lemma latestCheckpoint_ok (h : latestCheckpoint none none db = .ok (some c)) :
    ∃ n doc, db.ckpt.get n = some doc ∧ doc.decode Checkpoint.unmarshal = .ok c := by
  simp only [latestCheckpoint, bind_ok] at h
  obtain ⟨o, ho, h⟩ := h
  cases o with
  | none => cases h
  | some found =>
    obtain ⟨doc, n⟩ := found
    simp only [bind_ok, pure_ok, Option.some.injEq] at h
    obtain ⟨c', hdecode, rfl⟩ := h
    simp only [Db.latestCheckpoint, bind_ok] at ho
    obtain ⟨size, -, ho⟩ := ho
    split at ho
    · cases ho
    · simp only [Db.getCheckpoint, Db.view, Except.ok.injEq, Option.map_eq_some_iff] at ho
      obtain ⟨kv, hkv, heq⟩ := ho
      obtain ⟨rfl, rfl⟩ := Prod.mk.inj heq
      exact ⟨_, _, OrdMap.get_of_mem (List.mem_of_mem_filter (List.mem_of_getLast? hkv)), hdecode⟩

variable {newest size : Nat} {doc : Doc}

lemma latestCheckpoint_found (hlast : db.ckpt.toList.getLast? = some (newest, doc))
    (hsize : db.getSize none = .ok size) (hle : newest ≤ size) (hne : size ≠ 0) :
    latestCheckpoint none none db = (do return some (← doc.decode Checkpoint.unmarshal)) := by
  simp only [latestCheckpoint, Db.latestCheckpoint, hsize, ok_bind, if_neg hne,
    Db.getCheckpoint_last hlast hle]

lemma latestCheckpoint_last (hlast : db.ckpt.toList.getLast? = some (newest, doc))
    (hsize : db.size = some (.u64 size)) (hle : newest ≤ size) (hpos : 0 < newest) :
    latestCheckpoint none none db = (do return some (← doc.decode Checkpoint.unmarshal)) := by
  have hget : db.getSize none = .ok size := by simp [Db.getSize, Db.view, hsize]
  exact latestCheckpoint_found hlast hget hle (by omega)

lemma latestCheckpoint_newest (hrec : Recorded C es db)
    (hlast : db.ckpt.toList.getLast? = some (newest, doc)) (hsize : db.size = some (.u64 size))
    (hle : newest ≤ size) (hpos : 0 < newest) :
    ∃ c : Checkpoint, latestCheckpoint none none db = .ok (some c) ∧ c.size = newest ∧
      c.rootHash = rfc6962Root C ((es.take newest).map Entry.leafHash) ∧
      newest ≤ es.length := by
  obtain ⟨c, rfl, hc, hcommits⟩ := hrec newest doc (OrdMap.get_of_mem (List.mem_of_getLast? hlast))
  refine ⟨c.crossed, ?_, hc, hcommits.root, hcommits.size_le⟩
  rw [latestCheckpoint_last hlast hsize hle hpos, Doc.decode, Checkpoint.unmarshal_marshal]
  rfl

/-! ## The checkpoints that a log carries -/

structure State.Keeps (E : Checkpoint → Prop) (s : State R) : Prop where
  recorded : ∀ n doc, s.db.ckpt.get n = some doc → ∃ c : Checkpoint, doc = some c.marshal ∧ E c
  carried : ∀ p t c, s.proc = some p → (p.pc t).carried = some c → E c

lemma State.Keeps.mono {E E' : Checkpoint → Prop} (h : s.Keeps E) (himp : ∀ c, E c → E' c) :
    s.Keeps E' where
  recorded n doc hn := by
    obtain ⟨c, hdoc, hc⟩ := h.recorded n doc hn
    exact ⟨c, hdoc, himp c hc⟩
  carried p t c hp hc := himp c (h.carried p t c hp hc)

lemma carried_update {p : Proc R} {t u : Tid} {x : Pc}
    (h : (Function.update p.pc t x u).carried = some c) :
    (p.pc u).carried = some c ∨ x.carried = some c := by
  by_cases hut : u = t
  · subst hut
    rw [Function.update_self] at h
    exact .inr h
  · rw [Function.update_of_ne hut] at h
    exact .inl h

lemma threadStep_carried {opts : Options} {t u : Tid} {r : Reads} {p : Proc R}
    (h : ((threadStep C opts t r db p).2.1.pc u).carried = some c) :
    (p.pc u).carried = some c ∨
    (∃ size root head, p.pc t = .ckptSign size root head ∧
      signCheckpoint C r size root head = .ok c) ∨
    ∃ c', p.pc t = .ckptGather c' ∧ c = gatherWitnessSignatures r c' := by
  have hacts := threadStep_acts C opts t r db p
  generalize threadStep C opts t r db p = out at hacts h
  cases hacts with
  | stay => exact .inl h
  | sign hpc hsign =>
    refine (carried_update h).imp_right fun hc => ?_
    cases hc
    exact .inl ⟨_, _, _, hpc, hsign⟩
  | gather hpc =>
    refine (carried_update h).imp_right fun hc => ?_
    cases hc
    exact .inr ⟨_, hpc, rfl⟩
  | _ => exact (carried_update h).imp_right nofun

lemma step_keeps {E : Checkpoint → Prop} (hgather : ∀ r c, E c → E (gatherWitnessSignatures r c))
    (opts : Options) (h : s.Keeps E) {a : Action}
    (hsign : ∀ t r p size root head c, a = .thread t r → s.proc = some p →
      p.pc t = .ckptSign size root head → signCheckpoint C r size root head = .ok c → E c) :
    (step C opts s a).Keeps E where
  recorded n doc hn := by
    rcases step_ckpt C opts s a with hsame | ⟨t, r, p, c, rfl, hproc, hpc, hset⟩
    · rw [hsame] at hn
      exact h.recorded n doc hn
    · rw [hset] at hn
      by_cases hsize : n = c.size
      · subst hsize
        rw [OrdMap.get_set_self] at hn
        cases hn
        exact ⟨c, rfl, h.carried p t c hproc (by rw [hpc]; rfl)⟩
      · rw [OrdMap.get_set_ne _ hsize] at hn
        exact h.recorded n doc hn
  carried p' u c hp' hc := by
    have hacts := step_acts C opts s a
    generalize step C opts s a = s' at hacts hp'
    cases hacts with
    | store => exact h.carried p' u c hp' hc
    | begun hproc hx =>
      cases hp'
      rcases carried_update hc with hold | hnew
      · exact h.carried _ u c hproc hold
      · cases hx.symm.trans hnew
    | @thread t r p hproc =>
      cases hp'
      rcases threadStep_carried hc with hold | ⟨size, root, head, hpc, hok⟩ | ⟨c', hpc, rfl⟩
      · exact h.carried p u c hproc hold
      · exact hsign t r p size root head c rfl hproc hpc hok
      · exact hgather r c' (h.carried p t c' hproc (by rw [hpc]; rfl))
    | crash => cases hp'
    | started =>
      cases hp'
      cases hc

end Stele.Core
