import Stele.Core.Machine

/-!
# The operator's invariant

What holds of the store, the tree and the checkpoints in every state of every run.
-/

namespace Stele.Core

open Lib List Function

variable {C : Crypto} {R : RangeImpl Bytes} {RngHolds : R.Rng → List Bytes → Prop}

/-! ## What is claimed of each part -/

structure Commits (C : Crypto) (es : List Entry) (size : Nat) (root head : Bytes) : Prop where
  size_le : size ≤ es.length
  root : root = rfc6962Root C ((es.take size).map Entry.leafHash)
  head : head = Db.headOf (es.take size)

lemma Commits.whole (es : List Entry) :
    Commits C es es.length (rfc6962Root C (es.map Entry.leafHash)) (Db.headOf es) :=
  ⟨le_refl _, by rw [take_length], by rw [take_length]⟩

lemma Commits.mono {es es' : List Entry} {size : Nat} {root head : Bytes}
    (h : Commits C es size root head) (hp : es <+: es') : Commits C es' size root head := by
  have htake : es'.take size = es.take size := by
    obtain ⟨rest, rfl⟩ := hp
    rw [take_append_of_le_length h.size_le]
  exact ⟨h.size_le.trans hp.length_le, htake ▸ h.root, htake ▸ h.head⟩

namespace Pc

def critical : Pc → Bool
  | .appendRecord .. | .appendHead .. | .appendEntry _ | .appendTree _ | .ckptHead _ => true
  | _ => false

def pending : Pc → List Entry
  | .appendTree e => [e]
  | _ => []

lemma pending_of_free {x : Pc} (h : x.critical = false) : x.pending = [] := by
  cases x with
  | appendTree => cases h
  | _ => rfl

def Ok (C : Crypto) (es : List Entry) : Pc → Prop
  | .appendCheck env _ => ∀ e, env = some e → e.IsUtf8
  | .appendLock env _ => env.Valid C ∧ env.IsUtf8
  | .appendRecord idx env _ | .appendHead idx env _ => idx = es.length ∧ env.Valid C ∧ env.IsUtf8
  | .appendEntry e => e.index = es.length ∧ e.prevHash = Db.headOf es ∧ e.Sound C ∧ e.IsUtf8
  | .ckptHead root => root = rfc6962Root C (es.map Entry.leafHash)
  | .ckptSign size root head => Commits C es size root head
  | .ckptGather c | .ckptSave c => Commits C es c.size c.rootHash c.headHash
  | .idle | .appendTree _ | .ckptLock => True

/-- Outside a critical section a thread carries nothing that a longer log could break. -/
lemma Ok.mono {es es' : List Entry} {x : Pc} (h : x.Ok C es) (hx : x.critical = false)
    (hp : es <+: es') : x.Ok C es' := by
  cases x with
  | ckptSign => exact Commits.mono h hp
  | ckptGather => exact Commits.mono h hp
  | ckptSave => exact Commits.mono h hp
  | appendRecord => cases hx
  | appendHead => cases hx
  | appendEntry => cases hx
  | ckptHead => cases hx
  | _ => exact h

end Pc

variable {es : List Entry}

namespace Proc

def Exclusive (p : Proc R) : Prop := ∀ t, (p.pc t).critical = true → p.mu = some t

namespace Exclusive

variable {p : Proc R} (h : p.Exclusive)
include h

lemma ncrit {t u : Tid} (hc : (p.pc t).critical = true) (hut : u ≠ t) :
    (p.pc u).critical = false := by
  by_contra hcu
  have hu := h u (by simpa using hcu)
  rw [h t hc] at hu
  exact hut (Option.some.inj hu).symm

lemma move {t : Tid} {x : Pc} {mu : Option Tid} (hcrit : x.critical = true → mu = some t)
    (hmu : mu = p.mu ∨ p.mu = none ∧ mu = some t ∨ p.mu = some t ∧ mu = none) :
    Exclusive ({ p with mu := mu, pc := Function.update p.pc t x } : Proc R) := by
  intro u hu
  by_cases hut : u = t
  · subst hut
    simp only [update_self] at hu
    exact hcrit hu
  · simp only [update_of_ne hut] at hu
    have hpu := h u hu
    rcases hmu with rfl | ⟨hp, -⟩ | ⟨hp, -⟩
    · exact hpu
    · rw [hp] at hpu
      cases hpu
    · rw [hp] at hpu
      exact absurd (Option.some.inj hpu).symm hut

lemma goto {t : Tid} {x : Pc} (hcrit : x.critical = true → (p.pc t).critical = true) :
    (p.goto t x).Exclusive :=
  h.move (fun hc => h t (hcrit hc)) (.inl rfl)

lemma rest {t : Tid} {x : Pc} (hx : x.critical = false) : (p.goto t x).Exclusive :=
  h.goto fun hc => absurd hc (by simp [hx])

lemma enter {t : Tid} (x : Pc) (hmu : p.mu = none) : (p.enter t x).Exclusive :=
  h.move (fun _ => rfl) (.inr (.inl ⟨hmu, rfl⟩))

lemma leave {t : Tid} {x : Pc} (hx : x.critical = false) (hc : (p.pc t).critical = true) :
    (p.leave t x).Exclusive :=
  h.move (fun hxc => absurd hxc (by simp [hx])) (.inr (.inr ⟨h t hc, rfl⟩))

end Exclusive

def pending (p : Proc R) : List Entry :=
  match p.mu with
  | some t => (p.pc t).pending
  | none => []

structure Inv (C : Crypto) (RngHolds : R.Rng → List Bytes → Prop) (es : List Entry)
    (p : Proc R) : Prop where
  tree : ∃ pre, p.tree.Holds RngHolds (pre.map Entry.leafHash) ∧ es = pre ++ p.pending
  holder : ∀ t, (p.pc t).critical = true → p.mu = some t
  ok : ∀ t, (p.pc t).Ok C es

namespace Inv

variable {p : Proc R} (h : p.Inv C RngHolds es)
include h

lemma tree_of_critical {t : Tid} (hc : (p.pc t).critical = true) :
    ∃ pre, p.tree.Holds RngHolds (pre.map Entry.leafHash) ∧ es = pre ++ (p.pc t).pending := by
  have ht := h.tree
  unfold Proc.pending at ht
  rwa [h.holder t hc] at ht

lemma tree_of_free (hmu : p.mu = none) : p.tree.Holds RngHolds (es.map Entry.leafHash) := by
  obtain ⟨pre, htree, hes⟩ := h.tree
  rw [Proc.pending, hmu, append_nil] at hes
  exact hes ▸ htree

omit h in
/-- A move that neither commits an entry nor adds one to the tree leaves the pending entry. -/
lemma pending_move {t : Tid} {x : Pc} {mu : Option Tid} (hold : (p.pc t).pending = [])
    (hx : x.pending = [])
    (hmu : mu = p.mu ∨ p.mu = none ∧ mu = some t ∨ p.mu = some t ∧ mu = none) :
    ({ p with mu := mu, pc := Function.update p.pc t x } : Proc R).pending = p.pending := by
  unfold Proc.pending
  rcases hmu with rfl | ⟨hp, rfl⟩ | ⟨hp, rfl⟩
  · cases p.mu with
    | none => rfl
    | some u =>
      by_cases hut : u = t
      · subst hut
        simp only [update_self, hold, hx]
      · simp only [update_of_ne hut]
  · simp only [hp, update_self, hx]
  · simp only [hp, hold]

/-- Thread `t` moves and may take or release the lock; the log and the tree stay. -/
lemma move {t : Tid} {x : Pc} {mu : Option Tid} (hold : (p.pc t).pending = [])
    (hx : x.pending = []) (hok : x.Ok C es) (hcrit : x.critical = true → mu = some t)
    (hmu : mu = p.mu ∨ p.mu = none ∧ mu = some t ∨ p.mu = some t ∧ mu = none) :
    Inv C RngHolds es { p with mu := mu, pc := Function.update p.pc t x } where
  tree := by
    obtain ⟨pre, htree, hes⟩ := h.tree
    refine ⟨pre, htree, ?_⟩
    rw [pending_move hold hx hmu]
    exact hes
  holder := Exclusive.move h.holder hcrit hmu
  ok u := by
    by_cases hut : u = t
    · subst hut
      simpa only [update_self] using hok
    · simpa only [update_of_ne hut] using h.ok u

lemma goto {t : Tid} {x : Pc} (hold : (p.pc t).pending = []) (hx : x.pending = [])
    (hok : x.Ok C es) (hcrit : x.critical = true → (p.pc t).critical = true) :
    Inv C RngHolds es (p.goto t x) :=
  h.move hold hx hok (fun hc => h.holder t (hcrit hc)) (.inl rfl)

lemma enter {t : Tid} {x : Pc} (hold : (p.pc t).pending = []) (hx : x.pending = [])
    (hok : x.Ok C es) (hmu : p.mu = none) : Inv C RngHolds es (p.enter t x) :=
  h.move hold hx hok (fun _ => rfl) (.inr (.inl ⟨hmu, rfl⟩))

lemma leave {t : Tid} {x : Pc} (hold : (p.pc t).pending = []) (hx : x.pending = [])
    (hok : x.Ok C es) (hxc : x.critical = false) (hc : (p.pc t).critical = true) :
    Inv C RngHolds es (p.leave t x) :=
  h.move hold hx hok (fun hxc' => absurd hxc' (by simp [hxc]))
    (.inr (.inr ⟨h.holder t hc, rfl⟩))

lemma commit {t : Tid} {e : Entry} (hc : (p.pc t).critical = true)
    (hold : (p.pc t).pending = []) :
    Inv C RngHolds (es ++ [e]) (p.goto t (.appendTree e)) where
  tree := by
    obtain ⟨pre, htree, hes⟩ := h.tree_of_critical hc
    refine ⟨pre, htree, ?_⟩
    rw [hold, append_nil] at hes
    simp [Proc.pending, Proc.goto, h.holder t hc, Pc.pending, hes]
  holder := Exclusive.goto h.holder fun _ => hc
  ok u := by
    by_cases hut : u = t
    · subst hut
      simp only [Proc.goto, update_self]
      trivial
    · simp only [Proc.goto, update_of_ne hut]
      -- another thread is in no critical section, so a longer log does not matter to it
      exact (h.ok u).mono (Exclusive.ncrit h.holder hc hut) (prefix_append es [e])

lemma publish {t : Tid} {e : Entry} {tree : Tree R} (hpc : p.pc t = .appendTree e)
    (htree : tree.Holds RngHolds (es.map Entry.leafHash)) :
    Inv C RngHolds es ({ p with tree := tree }.leave t .idle) where
  tree := ⟨es, htree, by simp [Proc.pending, Proc.leave]⟩
  holder := Exclusive.leave h.holder rfl (by rw [hpc]; rfl)
  ok u := by
    by_cases hut : u = t
    · subst hut
      simp only [Proc.leave, Proc.goto, update_self]
      trivial
    · simpa only [Proc.leave, Proc.goto, update_of_ne hut] using h.ok u

end Inv

end Proc

/-! ## Steps -/

section
variable (C : Crypto) (opts : Options) (t : Tid) (r : Reads) (db : Db) (p : Proc R)

/-- What a step of thread `t` can do. -/
inductive ThreadActs : Db × Proc R × Option Ret → Prop
  | stay {x : Pc} (hpc : p.pc t = x) (hfree : x.critical = false) : ThreadActs (db, p, none)
  | check {o : Option Envelope} {env : Envelope} {honeypot : Bool}
      (hpc : p.pc t = .appendCheck o honeypot) (hok : checkAppend C opts r db o = .ok env) :
      ThreadActs (db, p.goto t (.appendLock env honeypot), none)
  | lock {env : Envelope} {honeypot : Bool} (hpc : p.pc t = .appendLock env honeypot)
      (hmu : p.mu = none) :
      ThreadActs (db, p.enter t (.appendRecord p.tree.size env honeypot), none)
  | record {idx : Nat} {env : Envelope} {honeypot : Bool} {db' : Db}
      (hpc : p.pc t = .appendRecord idx env honeypot)
      (hrec : db.checkAndRecordEnvelope r.fault opts.replayTTL r.now (env.hash C) idx =
        (db', .ok ())) :
      ThreadActs (db', p.goto t (.appendHead idx env honeypot), none)
  | head {idx : Nat} {env : Envelope} {honeypot : Bool} {head : Bytes}
      (hpc : p.pc t = .appendHead idx env honeypot) (hhead : db.headHash r.fault = .ok head) :
      ThreadActs (db, p.goto t (.appendEntry (nextEntry C r.now idx head env honeypot)), none)
  | commit {e : Entry} {db' : Db} (hpc : p.pc t = .appendEntry e)
      (happ : db.appendEntry r.fault e = (db', .ok ())) :
      ThreadActs (db', p.goto t (.appendTree e), none)
  | publish {e : Entry} {tree : Tree R} {idx : Nat} (hpc : p.pc t = .appendTree e)
      (happ : p.tree.appendLeafHash e.leafHash = .ok (tree, idx)) :
      ThreadActs (db, { p with tree := tree }.leave t .idle, some (.entry e))
  | ckptLock {root : Bytes} (hpc : p.pc t = .ckptLock) (hmu : p.mu = none)
      (hroot : p.tree.root C = .ok root) : ThreadActs (db, p.enter t (.ckptHead root), none)
  | ckptHead {root head : Bytes} (hpc : p.pc t = .ckptHead root)
      (hhead : db.headHash r.fault = .ok head) :
      ThreadActs (db, p.leave t (.ckptSign p.tree.size root head), none)
  | sign {size : Nat} {root head : Bytes} {c : Checkpoint} (hpc : p.pc t = .ckptSign size root head)
      (hsign : signCheckpoint C r size root head = .ok c) :
      ThreadActs (db, p.goto t (.ckptGather c), none)
  | gather {c : Checkpoint} (hpc : p.pc t = .ckptGather c) :
      ThreadActs (db, p.goto t (.ckptSave (gatherWitnessSignatures r c)), none)
  | save {c : Checkpoint} {db' : Db} (hpc : p.pc t = .ckptSave c)
      (hsave : db.saveCheckpoint r.fault c.size c.marshal = (db', .ok ())) :
      ThreadActs (db', p.goto t .idle, some (.checkpoint c))
  | fail {x : Pc} (f : Fault) (hpc : p.pc t = x) (hfree : x.critical = false) :
      ThreadActs (db, p.goto t .idle, some (.failed f))
  | failLocked {x : Pc} (f : Fault) (hpc : p.pc t = x) (hcrit : x.critical = true)
      (hentry : ∀ e, x = .appendEntry e → ∃ f, (db.appendEntry r.fault e).2 = .error f)
      (htree : ∀ e, x = .appendTree e → ∃ f, p.tree.appendLeafHash e.leafHash = .error f) :
      ThreadActs (db, p.leave t .idle, some (.failed f))
  | stuck {f : Fault} (hpc : p.pc t = .ckptLock) (hmu : p.mu = none)
      (hroot : p.tree.root C = .error f) : ThreadActs (db, p.enter t .idle, some (.failed f))

lemma threadStep_acts : ThreadActs C opts t r db p (threadStep C opts t r db p) := by
  cases hpc : p.pc t with
  | idle =>
    simp only [threadStep, hpc]
    exact .stay hpc rfl
  | appendCheck o =>
    simp only [threadStep, hpc]
    cases hok : checkAppend C opts r db o with
    | error f => exact .fail f hpc rfl
    | ok => exact .check hpc hok
  | appendLock =>
    simp only [threadStep, hpc]
    cases hmu : p.mu with
    | some => exact .stay hpc rfl
    | none => exact .lock hpc hmu
  | appendRecord idx env =>
    simp only [threadStep, hpc]
    rcases hrec : db.checkAndRecordEnvelope r.fault opts.replayTTL r.now (env.hash C) idx with
      ⟨db', f | _⟩
    · cases Db.update_error hrec
      exact .failLocked _ hpc rfl nofun nofun
    · exact .record hpc hrec
  | appendHead =>
    simp only [threadStep, hpc]
    cases hhead : db.headHash r.fault with
    | error f => exact .failLocked f hpc rfl nofun nofun
    | ok => exact .head hpc hhead
  | appendEntry e =>
    simp only [threadStep, hpc]
    rcases happ : db.appendEntry r.fault e with ⟨db', f | _⟩
    · cases Db.appendEntry_error happ
      exact .failLocked f hpc rfl (fun e he => by cases he; exact ⟨f, by rw [happ]⟩) nofun
    · exact .commit hpc happ
  | appendTree e =>
    simp only [threadStep, hpc]
    cases happ : p.tree.appendLeafHash e.leafHash with
    | error f => exact .failLocked f hpc rfl nofun fun e he => by cases he; exact ⟨f, happ⟩
    | ok => exact .publish hpc happ
  | ckptLock =>
    simp only [threadStep, hpc]
    cases hmu : p.mu with
    | some => exact .stay hpc rfl
    | none =>
      cases hroot : p.tree.root C with
      | error => exact .stuck hpc hmu hroot
      | ok => exact .ckptLock hpc hmu hroot
  | ckptHead =>
    simp only [threadStep, hpc]
    cases hhead : db.headHash r.fault with
    | error f => exact .failLocked f hpc rfl nofun nofun
    | ok => exact .ckptHead hpc hhead
  | ckptSign size root head =>
    simp only [threadStep, hpc]
    cases hsign : signCheckpoint C r size root head with
    | error f => exact .fail f hpc rfl
    | ok => exact .sign hpc hsign
  | ckptGather =>
    simp only [threadStep, hpc]
    exact .gather hpc
  | ckptSave c =>
    simp only [threadStep, hpc]
    rcases hsave : db.saveCheckpoint r.fault c.size c.marshal with ⟨db', f | _⟩
    · cases Db.update_error hsave
      exact .fail f hpc rfl
    · exact .save hpc hsave

end

/-- The outcome of a step on the log `es`: a store and a process of the same log or a longer one,
and a returned checkpoint commits to it. -/
def Keeps (C : Crypto) (RngHolds : R.Rng → List Bytes → Prop) (es : List Entry)
    (out : Db × Proc R × Option Ret) : Prop :=
  ∃ es', es <+: es' ∧ out.1.Holds C es' ∧ out.2.1.Inv C RngHolds es' ∧
    ∀ c, out.2.2 = some (.checkpoint c) → Commits C es' c.size c.rootHash c.headHash

section
variable {db : Db} {p : Proc R}

lemma Keeps.same {ret : Option Ret} (hdb : db.Holds C es) (hp : p.Inv C RngHolds es)
    (hret : ∀ c, ret = some (.checkpoint c) → Commits C es c.size c.rootHash c.headHash) :
    Keeps C RngHolds es (db, p, ret) :=
  ⟨es, prefix_refl es, hdb, hp, hret⟩

lemma headHash_holds (hdb : db.Holds C es) {fault : Option Err} {head : Bytes}
    (h : db.headHash fault = .ok head) : head = Db.headOf es := by
  rcases hdb.headHash_cases fault with hhead | ⟨f, hhead⟩
  · exact Except.ok.inj (h.symm.trans hhead)
  · cases h.symm.trans hhead

lemma nextEntry_ok {now : Int} {env : Envelope} {honeypot : Bool} (hvalid : env.Valid C)
    (hutf8 : env.IsUtf8) : (Pc.appendEntry
      (nextEntry C now es.length (Db.headOf es) env honeypot)).Ok C es := by
  have hzero : es.length = 0 → Db.headOf es = zeroHash := fun hz => by
    rw [length_eq_zero_iff.mp hz]
    rfl
  refine ⟨rfl, nextEntry_prevHash hzero, nextEntry_sound hvalid, fun env' he => ?_⟩
  cases he
  exact hutf8

lemma threadStep_keeps (hR : R.Lawful (hashChildren C) (emptyRoot C) RngHolds)
    (hdb : db.Holds C es) (h : p.Inv C RngHolds es) (opts : Options) (r : Reads) (t : Tid) :
    Keeps C RngHolds es (threadStep C opts t r db p) := by
  have hacts := threadStep_acts C opts t r db p
  have hok := h.ok t
  generalize threadStep C opts t r db p = out at hacts
  cases hacts with
  | stay => exact .same hdb h nofun
  | check hpc hcheck =>
    rw [hpc] at hok
    obtain ⟨rfl, hvalid⟩ := checkAppend_ok hcheck
    exact .same hdb (h.goto (by rw [hpc]; rfl) rfl ⟨hvalid, hok _ rfl⟩ nofun) nofun
  | lock hpc hmu =>
    rw [hpc] at hok
    have hsize : p.tree.size = es.length := by rw [Tree.size_eq hR (h.tree_of_free hmu), length_map]
    exact .same hdb (h.enter (by rw [hpc]; rfl) rfl ⟨hsize, hok⟩ hmu) nofun
  | @record idx env _ _ hpc hrec =>
    have hdb' := hdb.checkAndRecordEnvelope r.fault opts.replayTTL r.now (env.hash C) idx
    rw [hpc] at hok
    rw [hrec] at hdb'
    exact .same hdb' (h.goto (by rw [hpc]; rfl) rfl hok fun _ => by rw [hpc]; rfl) nofun
  | head hpc hhead =>
    rw [hpc] at hok
    obtain ⟨rfl, hvalid, hutf8⟩ := hok
    cases headHash_holds hdb hhead
    exact .same hdb (h.goto (by rw [hpc]; rfl) rfl (nextEntry_ok hvalid hutf8)
      fun _ => by rw [hpc]; rfl) nofun
  | @commit e _ hpc happ =>
    rw [hpc] at hok
    obtain ⟨hidx, hprev, hsound, hutf8⟩ := hok
    rcases hdb.appendEntry r.fault hidx hprev hsound hutf8 with ⟨db', happ', hdb'⟩ | ⟨f, happ'⟩
    · cases happ.symm.trans happ'
      exact ⟨es ++ [e], prefix_append es [e], hdb',
        h.commit (by rw [hpc]; rfl) (by rw [hpc]; rfl), nofun⟩
    · cases happ.symm.trans happ'
  | @publish e _ _ hpc happ =>
    obtain ⟨pre, htree, hes⟩ := h.tree_of_critical (t := t) (by rw [hpc]; rfl)
    obtain ⟨tree, happ', hnew⟩ := Tree.appendLeafHash_ok hR htree e.leafHash
    cases happ.symm.trans happ'
    refine .same hdb (h.publish hpc ?_) nofun
    rw [hes, hpc, map_append]
    exact hnew
  | ckptLock hpc hmu hroot =>
    cases hroot.symm.trans (Tree.root_eq hR (h.tree_of_free hmu))
    exact .same hdb (h.enter (by rw [hpc]; rfl) rfl rfl hmu) nofun
  | ckptHead hpc hhead =>
    -- in its critical section a checkpoint reads the size, the root and the head of one log
    obtain ⟨pre, htree, hes⟩ := h.tree_of_critical (t := t) (by rw [hpc]; rfl)
    rw [hpc] at hok hes
    obtain rfl : es = pre := hes.trans (append_nil pre)
    cases headHash_holds hdb hhead
    rw [Tree.size_eq hR htree, length_map, show _ = _ from hok]
    exact .same hdb (h.leave (by rw [hpc]; rfl) rfl (Commits.whole es) rfl (by rw [hpc]; rfl)) nofun
  | sign hpc hsign =>
    rw [hpc] at hok
    obtain ⟨rfl, rfl, rfl⟩ := signCheckpoint_statement hsign
    exact .same hdb (h.goto (by rw [hpc]; rfl) rfl hok nofun) nofun
  | gather hpc =>
    rw [hpc] at hok
    exact .same hdb (h.goto (by rw [hpc]; rfl) rfl hok nofun) nofun
  | @save c _ hpc hsave =>
    have hdb' := hdb.saveCheckpoint r.fault c.size c.marshal
    rw [hpc] at hok
    rw [hsave] at hdb'
    refine .same hdb' (h.goto (by rw [hpc]; rfl) rfl trivial nofun) fun c' hc' => ?_
    cases hc'
    exact hok
  | fail f hpc hfree =>
    refine .same hdb (h.goto ?_ rfl trivial nofun) nofun
    rw [hpc]
    exact Pc.pending_of_free hfree
  | @failLocked x f hpc hcrit _ htree =>
    refine .same hdb (h.leave ?_ rfl trivial rfl (by rw [hpc]; exact hcrit)) nofun
    rw [hpc]
    cases x with
    | appendTree e =>
      obtain ⟨pre, hpre, -⟩ := h.tree_of_critical (t := t) (by rw [hpc]; rfl)
      obtain ⟨tree, happ, -⟩ := Tree.appendLeafHash_ok hR hpre e.leafHash
      obtain ⟨f, hf⟩ := htree e rfl
      cases happ.symm.trans hf
    | _ => rfl
  | stuck hpc hmu hroot => cases hroot.symm.trans (Tree.root_eq hR (h.tree_of_free hmu))

end

/-! ## Runs -/

structure State.Inv (C : Crypto) (RngHolds : R.Rng → List Bytes → Prop) (es : List Entry)
    (s : State R) : Prop where
  db : s.db.Holds C es
  proc : ∀ p, s.proc = some p → p.Inv C RngHolds es
  returned : ∀ c, .checkpoint c ∈ s.returned → Commits C es c.size c.rootHash c.headHash

lemma init_inv : (init R).Inv C RngHolds [] := ⟨Db.empty_holds, nofun, nofun⟩

section
variable {s : State R} (h : s.Inv C RngHolds es)
include h

lemma begin_inv {t : Tid} {x : Pc} (hx : x.pending = []) (hok : x.Ok C es)
    (hcrit : x.critical = false) : (begin s t x).Inv C RngHolds es := by
  unfold begin
  cases hproc : s.proc with
  | none => exact h
  | some p =>
    simp only
    split
    · rename_i hidle
      refine ⟨h.db, fun q hq => ?_, h.returned⟩
      cases hq
      exact (h.proc p hproc).goto (by rw [hidle]; rfl) hx hok fun hc => by simp [hcrit] at hc
    · exact h

variable (hR : R.Lawful (hashChildren C) (emptyRoot C) RngHolds) (opts : Options)
include hR

lemma thread_inv (t : Tid) (r : Reads) :
    ∃ es', es <+: es' ∧ (step C opts s (.thread t r)).Inv C RngHolds es' := by
  unfold step
  cases hproc : s.proc with
  | none => exact ⟨es, prefix_refl es, h⟩
  | some p =>
    obtain ⟨es', hpre, hdb, hp, hret⟩ := threadStep_keeps hR h.db (h.proc p hproc) opts r t
    refine ⟨es', hpre, hdb, fun q hq => ?_, fun c hc => ?_⟩
    · cases hq
      exact hp
    · rcases mem_append.mp hc with hc | hc
      · exact (h.returned c hc).mono hpre
      · exact hret c (Option.mem_toList.mp hc)

lemma start_inv (faults : Nat → ReplayFaults) :
    (step C opts s (.start faults)).Inv C RngHolds es := by
  unfold step
  cases hproc : s.proc with
  | some => exact h
  | none =>
    obtain ⟨db', res, hnew, hdb, htree, -⟩ := newLog_holds hR opts faults h.db
    simp only [hnew]
    cases res with
    | error => exact ⟨hdb, nofun, h.returned⟩
    | ok tree =>
      refine ⟨hdb, fun p hp => ?_, h.returned⟩
      cases hp
      exact ⟨⟨es, htree tree rfl, by simp [Proc.pending]⟩, nofun, fun _ => trivial⟩

lemma step_inv {a : Action} (ha : a.IsUtf8) :
    ∃ es', es <+: es' ∧ (step C opts s a).Inv C RngHolds es' := by
  cases a with
  | callAppend =>
    refine ⟨es, prefix_refl es, begin_inv h rfl (fun e he => ?_) rfl⟩
    subst he
    exact ha
  | callCheckpoint => exact ⟨es, prefix_refl es, begin_inv h rfl trivial rfl⟩
  | thread t r => exact thread_inv h hR opts t r
  | registerProducer fault now p =>
    exact ⟨es, prefix_refl es, h.db.registerProducer fault now p, h.proc, h.returned⟩
  | revokeProducer fault now id reason =>
    exact ⟨es, prefix_refl es, h.db.revokeProducer fault now id reason, h.proc, h.returned⟩
  | crash => exact ⟨es, prefix_refl es, h.db, nofun, h.returned⟩
  | start faults => exact ⟨es, prefix_refl es, start_inv h hR opts faults⟩

end

lemma run_inv (hR : R.Lawful (hashChildren C) (emptyRoot C) RngHolds) (opts : Options)
    {as : List Action} (has : ∀ a ∈ as, a.IsUtf8) :
    ∃ es, (run (step C opts) (init R) as).Inv C RngHolds es := by
  refine run_invariant (I := fun s : State R => ∃ es, s.Inv C RngHolds es) (fun s a ha hs => ?_)
    ⟨[], init_inv⟩ has
  obtain ⟨es, hs⟩ := hs
  obtain ⟨es', -, hs'⟩ := step_inv hs hR opts ha
  exact ⟨es', hs'⟩

end Stele.Core
