import Stele.Witness.Server

/-!
# The watcher (`pkg/watcher`)

`Run` asks the operator for its latest checkpoint and each witness for its signed statement, and
compares the roots at the operator's size. The verdict is what remains when there is no divergence
and some witness has answered.
-/

namespace Stele.Watcher

open Lib Witness List

structure Config where
  origin : Bytes
  operatorURL : Bytes
  witnessURLs : List Bytes

structure Answers where
  checkpoint : Except Err (Option Checkpoint)
  seen : Nat → Except Err (Option SignedSeen)

structure SourceView where
  name : Bytes
  reachable : Bool := false
  size : Nat := 0
  rootHex : Bytes := []
  err : Option Fault := none

structure Divergence where
  source : Bytes
  size : Nat
  operatorRoot : Bytes
  sourceRoot : Bytes

structure Report where
  origin : Bytes
  operatorView : SourceView
  witnessViews : List SourceView
  divergences : List Divergence := []

inductive Outcome
  | consistent
  | diverged
  | errored
  deriving DecidableEq, Repr

def fetchOperatorCheckpoint (a : Answers) : Except Err Checkpoint := do
  match ← a.checkpoint with
  | none => throw (.errorf "operator returned no checkpoint" [])
  | some c => return c

section
variable (C : Crypto)

def fetchSignedSeen (answer : Except Err (Option SignedSeen)) : Res SignedSeen := do
  match ← answer.mapError .err with
  | none => throw (errorf "witness returned no signed seen statement" [])
  | some ss =>
    wrapErr "witness signed seen invalid: %w" [] (ss.verify C)
    return ss

def viewAtSize (size : Nat) (url : Bytes) (answer : Except Err (Option SignedSeen)) : SourceView :=
  match fetchSignedSeen C answer with
  | .error f => { name := url, size := size, err := some f }
  | .ok ss =>
    match ss.seen.lookup size with
    | some hexRoot => { name := url, size := size, reachable := true, rootHex := hexRoot }
    | none =>
      { name := url, size := size, reachable := true
        err := some (errorf "witness has no view at size %d" [.nat size]) }

def fetchWitnessSeenAtSize (cfg : Config) (a : Answers) (size : Nat) : List SourceView :=
  cfg.witnessURLs.mapIdx fun k url => viewAtSize C size url (a.seen k)

def latestView (url : Bytes) (answer : Except Err (Option SignedSeen)) : SourceView :=
  match fetchSignedSeen C answer with
  | .error f => { name := url, err := some f }
  | .ok ss =>
    let newest := ss.seen.entries.foldl
      (fun best e => if best.1 ≤ e.1 then (e.1, e.2) else best) ((0, []) : Nat × Bytes)
    { name := url, reachable := true, size := newest.1, rootHex := newest.2 }

def fetchWitnessSeen (cfg : Config) (a : Answers) : List SourceView :=
  cfg.witnessURLs.mapIdx fun k url => latestView C url (a.seen k)

def SourceView.Diverges (operatorRoot : Bytes) (wv : SourceView) : Prop :=
  wv.reachable = true ∧ wv.rootHex ≠ [] ∧ wv.rootHex ≠ operatorRoot
  deriving Decidable

def divergences (size : Nat) (operatorRoot : Bytes) (views : List SourceView) : List Divergence :=
  let found := (views.filter (·.Diverges operatorRoot)).map fun wv =>
    ⟨wv.name, size, operatorRoot, wv.rootHex⟩
  found.mergeSort fun d d' => Group.bytesLe d.source d'.source

def run (cfg : Config) (a : Answers) : Res (Report × Outcome) := do
  ensure (cfg.origin ≠ []) (errorf "watcher: Origin required" [])
  ensure (cfg.operatorURL ≠ []) (errorf "watcher: OperatorURL required" [])
  match fetchOperatorCheckpoint a with
  | .error e =>
    let operatorView := { name := lit "operator", err := some (.err e) }
    return ({ origin := cfg.origin, operatorView, witnessViews := fetchWitnessSeen C cfg a },
      .errored)
  | .ok opCkpt =>
    let operatorView : SourceView := {
      name := lit "operator"
      reachable := true
      size := opCkpt.size
      rootHex := hex opCkpt.rootHash }
    let witnessViews := fetchWitnessSeenAtSize C cfg a opCkpt.size
    let divergences := divergences opCkpt.size operatorView.rootHex witnessViews
    let rep : Report := { origin := cfg.origin, operatorView, witnessViews, divergences }
    if divergences ≠ [] then return (rep, .diverged)
    else if witnessViews ≠ [] ∧ ∀ wv ∈ witnessViews, wv.reachable = false then
      return (rep, .errored)
    else return (rep, .consistent)

end

/-! ## The verdict -/

def Reached (C : Crypto) (cfg : Config) (a : Answers) (k : Nat) (ss : SignedSeen) : Prop :=
  k < cfg.witnessURLs.length ∧ a.seen k = .ok (some ss) ∧ ss.verify C = .ok ()

/-- Some reachable witness's statement about the origin has the operator's root at its size, and
none has another. -/
structure Confirmed (C : Crypto) (cfg : Config) (a : Answers) (ckpt : Checkpoint) : Prop where
  confirms : ∃ k ss, Reached C cfg a k ss ∧ ss.origin = cfg.origin ∧
    ss.seen.lookup ckpt.size = some (hex ckpt.rootHash)
  agree : ∀ k ss, Reached C cfg a k ss → ss.origin = cfg.origin →
    ∀ root, ss.seen.lookup ckpt.size = some root → root = hex ckpt.rootHash

section
variable {C : Crypto} {cfg : Config} {a : Answers} {answer : Except Err (Option SignedSeen)}

lemma fetchSignedSeen_ok {ss : SignedSeen} :
    fetchSignedSeen C answer = .ok ss ↔ answer = .ok (some ss) ∧ ss.verify C = .ok () := by
  rcases answer with e | _ | ss'
  · simp [fetchSignedSeen]
  · simp [fetchSignedSeen, throw, throwThe, MonadExceptOf.throw]
  · have hstep : fetchSignedSeen C (.ok (some ss')) = .ok ss ↔
        ∃ u, ss'.verify C = .ok u ∧ ss' = ss := by
      show (wrapErr _ _ (ss'.verify C) >>= fun _ => pure ss') = .ok ss ↔ _
      simp only [bind_ok, wrapErr_ok, pure_ok]
    rw [hstep]
    constructor
    · rintro ⟨_, hver, rfl⟩
      exact ⟨rfl, hver⟩
    · rintro ⟨h, hver⟩
      cases h
      exact ⟨(), hver, rfl⟩

variable {size : Nat}

lemma mem_views {wv : SourceView} :
    wv ∈ fetchWitnessSeenAtSize C cfg a size ↔
      ∃ (k : Nat) (hk : k < cfg.witnessURLs.length),
        viewAtSize C size cfg.witnessURLs[k] (a.seen k) = wv := by
  rw [fetchWitnessSeenAtSize, mem_mapIdx]

lemma viewAtSize_reachable {url : Bytes} :
    (viewAtSize C size url answer).reachable = true ↔ ∃ ss, fetchSignedSeen C answer = .ok ss := by
  unfold viewAtSize
  cases fetchSignedSeen C answer with
  | error => simp
  | ok ss => cases hroot : ss.seen.lookup size <;> simp [hroot]

lemma viewAtSize_rootHex {url : Bytes} {ss : SignedSeen} (h : fetchSignedSeen C answer = .ok ss) :
    (viewAtSize C size url answer).rootHex = (ss.seen.lookup size).getD [] := by
  unfold viewAtSize
  rw [h]
  cases hroot : ss.seen.lookup size <;> simp [hroot]

lemma divergences_eq_nil {root : Bytes} {views : List SourceView} :
    divergences size root views = [] ↔ ∀ wv ∈ views, ¬wv.Diverges root := by
  rw [divergences, ← length_eq_zero_iff, length_mergeSort, length_eq_zero_iff]
  simp

lemma views_agree {root : Bytes} :
    (∀ wv ∈ fetchWitnessSeenAtSize C cfg a size, ¬wv.Diverges root) ↔
      ∀ k ss, Reached C cfg a k ss → ∀ root', ss.seen.lookup size = some root' →
        root' = [] ∨ root' = root := by
  constructor
  · rintro h k ss ⟨hk, hans⟩ root' hroot
    have hok := fetchSignedSeen_ok.mpr hans
    have hnot := h _ (mem_views.mpr ⟨k, hk, rfl⟩)
    rw [SourceView.Diverges, viewAtSize_rootHex hok, hroot, Option.getD_some] at hnot
    by_contra hne
    exact hnot ⟨viewAtSize_reachable.mpr ⟨ss, hok⟩, not_or.mp hne⟩
  · rintro h wv hwv ⟨hreach, hne, hdiff⟩
    obtain ⟨k, hk, rfl⟩ := mem_views.mp hwv
    obtain ⟨ss, hok⟩ := viewAtSize_reachable.mp hreach
    rw [viewAtSize_rootHex hok] at hne hdiff
    cases hroot : ss.seen.lookup size with
    | none => exact hne (by rw [hroot]; rfl)
    | some root' =>
      rw [hroot, Option.getD_some] at hne hdiff
      exact (h k ss ⟨hk, fetchSignedSeen_ok.mp hok⟩ root' hroot).elim hne hdiff

lemma some_reachable (size : Nat) :
    (∃ wv ∈ fetchWitnessSeenAtSize C cfg a size, wv.reachable = true) ↔
      ∃ k ss, Reached C cfg a k ss := by
  constructor
  · rintro ⟨wv, hwv, hreach⟩
    obtain ⟨k, hk, rfl⟩ := mem_views.mp hwv
    obtain ⟨ss, hok⟩ := viewAtSize_reachable.mp hreach
    exact ⟨k, ss, hk, fetchSignedSeen_ok.mp hok⟩
  · rintro ⟨k, ss, hk, hans⟩
    exact ⟨_, mem_views.mpr ⟨k, hk, rfl⟩,
      viewAtSize_reachable.mpr ⟨ss, fetchSignedSeen_ok.mpr hans⟩⟩

/-- What a Consistent verdict says: no reachable witness has another root at the operator's size,
but it may have the empty text or none, and some witness is reachable. -/
lemma consistent_means {rep : Report} (hurls : cfg.witnessURLs ≠ [])
    (h : run C cfg a = .ok (rep, .consistent)) :
    ∃ ckpt, a.checkpoint = .ok (some ckpt) ∧ (∃ k ss, Reached C cfg a k ss) ∧
      ∀ k ss, Reached C cfg a k ss → ∀ root, ss.seen.lookup ckpt.size = some root →
        root = [] ∨ root = hex ckpt.rootHash := by
  simp only [run, bind_ok] at h
  obtain ⟨-, -, -, -, h⟩ := h
  split at h
  · cases h
  · rename_i ckpt hckpt
    have hans : a.checkpoint = .ok (some ckpt) := by
      rcases hc : a.checkpoint with e | _ | c <;> rw [fetchOperatorCheckpoint, hc] at hckpt <;>
        cases hckpt
      rfl
    split at h
    · cases h
    · rename_i hdiv
      split at h
      · cases h
      · rename_i herr
        have hne : fetchWitnessSeenAtSize C cfg a ckpt.size ≠ [] := by
          simpa [fetchWitnessSeenAtSize] using hurls
        refine ⟨ckpt, hans, (some_reachable ckpt.size).mp ?_,
          views_agree.mp (divergences_eq_nil.mp (not_not.mp hdiv))⟩
        by_contra hnone
        refine herr ⟨hne, fun wv hwv => ?_⟩
        exact Bool.eq_false_iff.mpr fun hreach => hnone ⟨wv, hwv, hreach⟩

/-- **When a Consistent verdict has confirmed the root.** No reachable witness has another root,
and the root is confirmed exactly when some reachable witness's statement about the origin has a
view at the operator's size, and no such view is the empty text. -/
theorem consistent_confirms_iff (hurls : cfg.witnessURLs ≠ []) {rep : Report}
    (h : run C cfg a = .ok (rep, .consistent)) :
    ∃ ckpt, a.checkpoint = .ok (some ckpt) ∧ (Confirmed C cfg a ckpt ↔
      (∃ k ss, Reached C cfg a k ss ∧ ss.origin = cfg.origin ∧ ckpt.size ∈ ss.seen) ∧
      ∀ k ss, Reached C cfg a k ss → ss.origin = cfg.origin →
        ss.seen.lookup ckpt.size = some [] → ckpt.rootHash = []) := by
  obtain ⟨ckpt, hans, -, hagree⟩ := consistent_means hurls h
  refine ⟨ckpt, hans, fun ⟨hconf, hall⟩ => ⟨?_, ?_⟩, fun ⟨hview, hempty⟩ => ?_⟩
  · obtain ⟨k, ss, hss, horigin, hroot⟩ := hconf
    exact ⟨k, ss, hss, horigin, AList.lookup_isSome.mp (by rw [hroot]; rfl)⟩
  · intro k ss hss horigin hroot
    have hnil := hall k ss hss horigin [] hroot
    exact hex_inj (hnil.symm.trans rfl)
  · have hroot : ∀ k ss, Reached C cfg a k ss → ss.origin = cfg.origin →
        ∀ root, ss.seen.lookup ckpt.size = some root → root = hex ckpt.rootHash := by
      intro k ss hss horigin root hroot
      rcases hagree k ss hss root hroot with rfl | heq
      · rw [hempty k ss hss horigin hroot]
        rfl
      · exact heq
    obtain ⟨k, ss, hss, horigin, hmem⟩ := hview
    obtain ⟨root, hlook⟩ := Option.isSome_iff_exists.mp (AList.lookup_isSome.mpr hmem)
    exact ⟨⟨k, ss, hss, horigin, by rw [hlook, hroot k ss hss horigin root hlook]⟩, hroot⟩

end

/-! ## Verdicts without a confirmation -/

def oneWitness (ss : SignedSeen) : Answers where
  checkpoint := .ok (some ⟨lit "log", 1, [7], [], 0, 0, [], none, [], [], [], [], []⟩)
  seen _ := .ok (some { ss with signature := Crypto.sample.edSign ss.publicKey ss.canonical })

def watching : Config := ⟨lit "log", lit "op", [lit "w"]⟩

def statement (origin : Bytes) (seen : Dict Nat Bytes) : SignedSeen :=
  ⟨lit "w", List.replicate 32 1, [], origin, seen, 0, []⟩

lemma ok_of_outcome {x : Res (Report × Outcome)} {o : Outcome}
    (h : x.toOption.map Prod.snd = some o) : ∃ rep, x = .ok (rep, o) := by
  rcases x with f | ⟨rep, o'⟩ <;> simp_all [Except.toOption]

theorem consistent_confirms_iff_one : ∃ rep, run .sample watching
      (oneWitness (statement (lit "log") [⟨1, hex [7]⟩].toAList)) = .ok (rep, .consistent) ∧
    ∃ ckpt, Confirmed .sample watching
      (oneWitness (statement (lit "log") [⟨1, hex [7]⟩].toAList)) ckpt := by
  obtain ⟨rep, hrun⟩ := ok_of_outcome (x := run .sample watching
    (oneWitness (statement (lit "log") [⟨1, hex [7]⟩].toAList))) (o := .consistent)
    (by decide +kernel)
  obtain ⟨ckpt, hckpt, hiff⟩ := consistent_confirms_iff (by decide) hrun
  cases hckpt
  refine ⟨rep, hrun, _, hiff.mpr ⟨⟨0, _, ⟨by decide, rfl, by decide +kernel⟩, rfl, by decide⟩, ?_⟩⟩
  rintro k ss ⟨-, hss, -⟩ - hroot
  cases hss
  exact absurd hroot (by decide)

/-- A witness without any root, one with the empty text, and one that tells about another log. -/
def unconfirming : List SignedSeen :=
  [statement (lit "log") ∅, statement (lit "log") [⟨1, []⟩].toAList,
    statement (lit "other") [⟨1, hex [7]⟩].toAList]

theorem consistent_unconfirmed :
    (∀ ss ∈ unconfirming,
      (run .sample watching (oneWitness ss)).toOption.map Prod.snd = some .consistent) ∧
    ∀ ss ∈ unconfirming, ∀ ckpt, (oneWitness ss).checkpoint = .ok (some ckpt) →
      ¬Confirmed .sample watching (oneWitness ss) ckpt := by
  refine ⟨by decide +kernel, fun ss hss ckpt hckpt hconf => ?_⟩
  obtain ⟨k, ss', ⟨-, hans, -⟩, horigin, hroot⟩ := hconf.confirms
  cases hckpt
  cases hans
  clear hconf
  revert ss
  decide

end Stele.Watcher
