import Stele.Lib.Runs
import Stele.Merkle.Proofs
import Stele.Storage.Reads
import Stele.Verify.History

/-!
# The tripwire (`pkg/tripwire`)

`Run` reads the entries back from the store, checks each one and its link, and compares the root of
their leaves with the one that was committed.
-/

namespace Stele.Tripwire

open Lib List

structure Result where
  size : Nat
  expectedRoot : Bytes
  derivedRoot : Bytes := []
  tamper : Bool := false
  firstFailureIndex : Int := -1
  err : Option Fault := none
  deriving DecidableEq

def errStopIter : Fault := errorf "tripwire: stop iteration" []

structure Scan (R : RangeImpl Bytes) where
  tree : Tree R
  prev : Option Entry
  res : Result

section
variable (C : Crypto) {R : RangeImpl Bytes}

def checkEntry (prev : Option Entry) (e : Entry) : Res Unit := do
  e.verify C
  e.verifyChain prev

def visit (size : Nat) (s : Scan R) (e : Entry) : Scan R × Res Unit :=
  if size ≤ e.index then (s, .error errStopIter)
  else
    match checkEntry C s.prev e with
    | .error (.panic w) => (s, .error (.panic w))
    | .error (.err _) =>
      let res := { s.res with tamper := true, firstFailureIndex := Int.bmod e.index (2 ^ 64) }
      ({ s with res := res }, .error errStopIter)
    | .ok () =>
      match s.tree.appendLeafHash e.leafHash with
      | .error f => (s, .error f)
      | .ok (tree, _) => ({ s with tree := tree, prev := some e }, .ok ())

/-- The end of `Run`, after an iteration that was not cut short by an error. -/
def finish (size : Nat) (expectedRoot : Bytes) (s : Scan R) : Result × Res Unit :=
  if s.res.tamper = true then (s.res, .ok ())
  else if s.tree.size ≠ size then
    let f := errorf "tripwire: iterated %d entries, expected %d" [.nat s.tree.size, .nat size]
    ({ s.res with err := some f }, .error f)
  else
    match s.tree.root C with
    | .error f => (s.res, .error f)
    | .ok root =>
      ({ s.res with derivedRoot := root, tamper := decide (root ≠ expectedRoot) }, .ok ())

def conclude (size : Nat) (expectedRoot : Bytes) : Scan R × Res Unit → Result × Res Unit
  | (s, .ok ()) => finish C size expectedRoot s
  | (s, .error f) =>
    if f = errStopIter then finish C size expectedRoot s
    else ({ s.res with err := some f }, .error f)

def run (R : RangeImpl Bytes) (fault : Option Err) (faults : Nat → Db.ItemFaults) (db : Db)
    (size : Nat) (expectedRoot : Bytes) : Result × Res Unit :=
  let res : Result := { size := size, expectedRoot := expectedRoot }
  if size = 0 then
    ({ res with derivedRoot := emptyRoot C, tamper := decide (emptyRoot C ≠ expectedRoot) }, .ok ())
  else
    let s : Scan R := ⟨.newBoundedTreeWithStore R 0 0 (.mem ∅), none, res⟩
    conclude C size expectedRoot (db.iterateEntries fault faults 0 (visit C size) s)

end

/-! ## The loop -/

variable {C : Crypto} {R : RangeImpl Bytes} {RngHolds : R.Rng → List Bytes → Prop} {e : Entry}

lemma checkEntry_ok {prev : Option Entry} {u : Unit} :
    checkEntry C prev e = .ok u ↔ e.Sound C ∧ e.Follows prev := by
  simp only [checkEntry, bind_ok, Entry.verify_ok, Entry.verifyChain_ok, exists_const]

lemma checkEntry_cases (prev : Option Entry) (e : Entry) :
    checkEntry C prev e = .ok () ∨ ∃ err, checkEntry C prev e = .error (.err err) := by
  have hnp : NoPanic (checkEntry C prev e) :=
    noPanic_bind.mpr ⟨e.noPanic_verify, fun _ _ => e.noPanic_verifyChain prev⟩
  cases hc : checkEntry C prev e with
  | ok => exact .inl rfl
  | error f =>
    cases f with
    | err err => exact .inr ⟨err, rfl⟩
    | panic w => exact absurd hc (hnp w)

/-- The loop has read the entries `es`, which are sound and chained, and nothing is wrong yet. -/
structure Scan.Holds (C : Crypto) (RngHolds : R.Rng → List Bytes → Prop) (res : Result)
    (es : List Entry) (s : Scan R) : Prop where
  tree : s.tree.Holds RngHolds (es.map Entry.leafHash)
  prev : s.prev = es.getLast?
  res : s.res = res
  sound : ∀ e ∈ es, e.Sound C
  chained : Entry.Chained none es

variable {es : List Entry}

lemma Scan.Holds.next_index {res : Result} {s : Scan R} (h : s.Holds C RngHolds res es)
    (he : e.Follows s.prev) : e.index = es.length := by
  have hchained : Entry.Chained none (es ++ [e]) := by
    refine Entry.chained_concat.mpr ⟨h.chained, ?_⟩
    rwa [Entry.lastOr, Option.or_none, ← h.prev]
  simpa [Entry.nextIndex] using hchained.index_eq (i := es.length) (e := e) (by simp)

def entryOf (kv : Nat × Doc) : Res Entry := kv.2.decode Entry.unmarshal

lemma prefix_ok {fs : List Entry} :
    es.map (Except.ok : Entry → Res Entry) <+: fs.map Except.ok ↔ es <+: fs :=
  prefix_map_iff_of_injective fun _ _ h => Except.ok.inj h

/-- **The loop can read what it needs.** Until `size` entries are read or one is out of order, the
next value is there and decodes to an entry with an index below `size`; the value after the last
one, if there is one, decodes, too. -/
def Readable (C : Crypto) (size : Nat) : List Entry → List (Res Entry) → Prop
  | es, [] => es.length = size
  | es, r :: items => ∃ e, r = .ok e ∧ (es.length < size → e.index < size ∧
      (e.Sound C → e.Follows es.getLast? → Readable C size (es ++ [e]) items))

section
variable (hR : R.Lawful (hashChildren C) (emptyRoot C) RngHolds) {size : Nat} {res : Result}
  (hclean : res.tamper = false)
include hR

variable {es : List Entry} {s : Scan R}

/-- **What one entry does**: it ends the loop, or it is added, or it raises the alarm. -/
theorem visit_cases (size : Nat) (h : s.Holds C RngHolds res es) (e : Entry) :
    (size ≤ e.index ∧ visit C size s e = (s, .error errStopIter)) ∨
    (e.index < size ∧ e.Sound C ∧ e.Follows s.prev ∧
      ∃ s', visit C size s e = (s', .ok ()) ∧ s'.Holds C RngHolds res (es ++ [e])) ∨
    (e.index < size ∧ ¬ (e.Sound C ∧ e.Follows s.prev) ∧
      ∃ s', visit C size s e = (s', .error errStopIter) ∧ s'.res.tamper = true) := by
  unfold visit
  by_cases hidx : size ≤ e.index
  · rw [if_pos hidx]
    exact .inl ⟨hidx, rfl⟩
  · rw [if_neg hidx]
    rcases checkEntry_cases (C := C) s.prev e with hok | ⟨err, herr⟩
    · obtain ⟨hsound, hfollows⟩ := checkEntry_ok.mp hok
      obtain ⟨tree, happ, htree⟩ := Tree.appendLeafHash_ok hR h.tree e.leafHash
      refine .inr (.inl ⟨Nat.not_le.mp hidx, hsound, hfollows, ⟨tree, some e, s.res⟩, ?_, ?_⟩)
      · rw [hok]
        simp only [happ]
      · refine ⟨by rwa [map_append], by simp, h.res, ?_, ?_⟩
        · intro x hx
          rcases mem_append.mp hx with hx | hx
          · exact h.sound x hx
          · rwa [mem_singleton.mp hx]
        · refine Entry.chained_concat.mpr ⟨h.chained, ?_⟩
          rwa [Entry.lastOr, Option.or_none, ← h.prev]
    · refine .inr (.inr ⟨Nat.not_le.mp hidx, fun hok => ?_, ?_⟩)
      · rw [(checkEntry_ok (u := ())).mpr hok] at herr
        cases herr
      · rw [herr]
        exact ⟨_, rfl, rfl⟩

omit hR in
lemma entryOf_ok {f : Db.ItemFaults} {kv : Nat × Doc} {e : Entry}
    (h : Db.itemEntry f kv.2 = .ok e) : entryOf kv = .ok e :=
  Db.itemEntry_ok h

/-- **How the loop ends**, over any items: everything it read is in order; or the alarm is raised;
or an error ends it. -/
theorem scan_cases {faults : Nat → Db.ItemFaults} {items : List (Nat × Doc)}
    (h : s.Holds C RngHolds res es) :
    (∃ more, more.map Except.ok <+: items.map entryOf ∧
      (Db.iterate faults (visit C size) items s).1.Holds C RngHolds res (es ++ more) ∧
      ((Db.iterate faults (visit C size) items s).2 = .ok () ∨
        (Db.iterate faults (visit C size) items s).2 = .error errStopIter)) ∨
    ((Db.iterate faults (visit C size) items s).1.res.tamper = true ∧
      (Db.iterate faults (visit C size) items s).2 = .error errStopIter) ∨
    ∃ f, f ≠ errStopIter ∧ (Db.iterate faults (visit C size) items s).2 = .error f := by
  induction items generalizing es s with
  | nil => exact .inl ⟨[], by simp, by simpa [Db.iterate] using h, .inl rfl⟩
  | cons kv items ih =>
    rw [Db.iterate]
    cases hitem : Db.itemEntry (faults kv.1) kv.2 with
    | error f =>
      simp only
      by_cases hf : f = errStopIter
      · exact .inl ⟨[], by simp, by simpa using h, .inr (by rw [hf])⟩
      · exact .inr (.inr ⟨f, hf, rfl⟩)
    | ok e =>
      simp only
      rcases visit_cases hR size h e with
        ⟨-, hv⟩ | ⟨-, -, -, s', hv, hs'⟩ | ⟨-, -, s', hv, htamper⟩
      · rw [hv]
        exact .inl ⟨[], by simp, by simpa using h, .inr rfl⟩
      · rw [hv]
        rcases ih hs' with ⟨more, hpre, hholds, hend⟩ | halarm | herror
        · refine .inl ⟨e :: more, ?_, by simpa using hholds, hend⟩
          rw [map_cons, map_cons, entryOf_ok hitem]
          exact (prefix_cons_inj _).mpr hpre
        · exact .inr (.inl halarm)
        · exact .inr (.inr herror)
      · rw [hv]
        exact .inr (.inl ⟨htamper, rfl⟩)

/-- **How the loop ends over items that can be read**: with `size` entries, or with the alarm at one
that is out of order. -/
theorem scan_readable {items : List (Nat × Doc)} (h : s.Holds C RngHolds res es)
    (hle : es.length ≤ size) (hread : Readable C size es (items.map entryOf)) :
    (∃ more, more.map Except.ok <+: items.map entryOf ∧ es.length + more.length = size ∧
      (Db.iterate (fun _ => {}) (visit C size) items s).1.Holds C RngHolds res (es ++ more) ∧
      ((Db.iterate (fun _ => {}) (visit C size) items s).2 = .ok () ∨
        (Db.iterate (fun _ => {}) (visit C size) items s).2 = .error errStopIter)) ∨
    ((Db.iterate (fun _ => {}) (visit C size) items s).1.res.tamper = true ∧
      (Db.iterate (fun _ => {}) (visit C size) items s).2 = .error errStopIter ∧
      ∃ more e, (more ++ [e]).map Except.ok <+: items.map entryOf ∧ e.index < size ∧
        ¬ (e.Sound C ∧ e.Follows (es ++ more).getLast?)) := by
  induction items generalizing es s with
  | nil => exact .inl ⟨[], by simp, hread, by simpa [Db.iterate] using h, .inl rfl⟩
  | cons kv items ih =>
    obtain ⟨e, he, hrest⟩ := hread
    rw [Db.iterate, show Db.itemEntry {} kv.2 = .ok e from he, map_cons, he]
    simp only
    rcases visit_cases hR size h e with
      ⟨hge, hv⟩ | ⟨hlt, hsound, hfollows, s', hv, hs'⟩ | ⟨hlt, hbad, s', hv, htamper⟩
    · rw [hv]
      have hlen : es.length = size := by
        by_contra hne
        have := (hrest (by omega)).1
        omega
      exact .inl ⟨[], by simp, hlen, by simpa using h, .inr rfl⟩
    · rw [hv]
      have hshort : es.length < size := by
        rw [← h.next_index hfollows]
        exact hlt
      have hnext := (hrest hshort).2 hsound (h.prev ▸ hfollows)
      rcases ih hs' (by simpa [Nat.succ_le_iff] using hshort) hnext with
        ⟨more, hpre, hlen, hdone⟩ | ⟨htamper, hend, more, x, hpre, hbad⟩
      · refine .inl ⟨e :: more, (prefix_cons_inj _).mpr hpre, ?_, by simpa using hdone⟩
        simp only [length_append, length_cons, length_nil] at hlen ⊢
        omega
      · refine .inr ⟨htamper, hend, e :: more, x, (prefix_cons_inj _).mpr hpre, ?_⟩
        simpa using hbad
    · rw [hv]
      refine .inr ⟨htamper, rfl, [], e, by simp, hlt, ?_⟩
      rwa [append_nil, ← h.prev]

/-! ## The result -/

omit hR in
lemma finish_tamper {root : Bytes} (h : s.res.tamper = true) :
    finish C size root s = (s.res, .ok ()) := by
  rw [finish, if_pos h]

include hclean in
lemma finish_holds (size : Nat) (root : Bytes) (h : s.Holds C RngHolds res es) :
    (es.length ≠ size ∧ ∃ r f, finish C size root s = (r, .error f)) ∨
    (es.length = size ∧ finish C size root s = ({ res with
      derivedRoot := rfc6962Root C (es.map Entry.leafHash)
      tamper := decide (rfc6962Root C (es.map Entry.leafHash) ≠ root) }, .ok ())) := by
  have hsize : s.tree.size = es.length := by rw [Tree.size_eq hR h.tree, length_map]
  rw [finish, h.res, hclean, hsize, Tree.root_eq hR h.tree]
  by_cases hlen : es.length = size
  · exact .inr ⟨hlen, by simp [hlen]⟩
  · exact .inl ⟨hlen, by simp [hlen]⟩

end

variable {size : Nat} {root : Bytes}

lemma conclude_finish {p : Scan R × Res Unit} (h : p.2 = .ok () ∨ p.2 = .error errStopIter) :
    conclude C size root p = finish C size root p.1 := by
  obtain ⟨s, r⟩ := p
  rcases h with h | h
  · rw [show r = .ok () from h, conclude]
  · rw [show r = .error errStopIter from h, conclude, if_pos rfl]

lemma conclude_error {p : Scan R × Res Unit} {f : Fault} (h : p.2 = .error f)
    (hf : f ≠ errStopIter) : (conclude C size root p).2 = .error f := by
  obtain ⟨s, r⟩ := p
  rw [show r = .error f from h, conclude, if_neg hf]

structure Matches (C : Crypto) (db : Db) (size : Nat) (root : Bytes) (es : List Entry) : Prop where
  stored : es.map Except.ok <+: db.entry.toList.map entryOf
  length : es.length = size
  index : ∀ (i : Nat) (e : Entry), es[i]? = some e → e.index = i
  sound : ∀ e ∈ es, e.Sound C
  chained : Entry.Chained none es
  root : rfc6962Root C (es.map Entry.leafHash) = root

section
variable (hR : R.Lawful (hashChildren C) (emptyRoot C) RngHolds)
include hR

lemma start_holds (res : Result) :
    Scan.Holds C RngHolds res [] (R := R) ⟨.newBoundedTreeWithStore R 0 0 (.mem ∅), none, res⟩ where
  tree := Tree.newBoundedTreeWithStore_holds hR _ _ _
  prev := rfl
  res := rfl
  sound := by simp
  chained := trivial

lemma iterateEntries_cases (fault : Option Err) (faults : Nat → Db.ItemFaults) (db : Db)
    (size : Nat) {res : Result} {s : Scan R} (h : s.Holds C RngHolds res []) :
    (∃ es, es.map Except.ok <+: db.entry.toList.map entryOf ∧
      (db.iterateEntries fault faults 0 (visit C size) s).1.Holds C RngHolds res es ∧
      ((db.iterateEntries fault faults 0 (visit C size) s).2 = .ok () ∨
        (db.iterateEntries fault faults 0 (visit C size) s).2 = .error errStopIter)) ∨
    ((db.iterateEntries fault faults 0 (visit C size) s).1.res.tamper = true ∧
      (db.iterateEntries fault faults 0 (visit C size) s).2 = .error errStopIter) ∨
    ∃ f, f ≠ errStopIter ∧ (db.iterateEntries fault faults 0 (visit C size) s).2 = .error f := by
  cases fault with
  | none =>
    rw [Db.iterateEntries_zero]
    simpa using scan_cases hR h
  | some err =>
    rw [Db.iterateEntries]
    by_cases hf : Fault.err err = errStopIter
    · exact .inl ⟨[], by simp, h, .inr (by rw [hf])⟩
    · exact .inr (.inr ⟨_, hf, rfl⟩)

lemma clean_run {fault : Option Err} {faults : Nat → Db.ItemFaults} {db : Db} {size : Nat}
    {root : Bytes} {r : Result} (h : run C R fault faults db size root = (r, .ok ()))
    (hr : r.tamper = false) : ∃ es, Matches C db size root es := by
  unfold run at h
  by_cases hsize : size = 0
  · rw [if_pos hsize] at h
    cases h
    have hroot : emptyRoot C = root := by simpa using hr
    exact ⟨[], by simp, hsize.symm, by simp, by simp, trivial, hroot⟩
  · rw [if_neg hsize] at h
    simp only at h
    rcases iterateEntries_cases hR fault faults db size
        (start_holds hR { size := size, expectedRoot := root }) with
      ⟨es, hpre, hholds, hend⟩ | ⟨htamper, hend⟩ | ⟨f, hf, hend⟩
    · rw [conclude_finish hend] at h
      rcases finish_holds hR rfl size root hholds with
        ⟨-, r', f, hfin⟩ | ⟨hlen, hfin⟩
      · rw [hfin] at h
        cases h
      · rw [hfin] at h
        cases h
        refine ⟨es, hpre, hlen, fun i e hi => ?_, hholds.sound, hholds.chained, ?_⟩
        · simpa [Entry.nextIndex] using hholds.chained.index_eq hi
        · simpa using hr
    · rw [conclude_finish (.inr hend), finish_tamper htamper] at h
      cases h
      rw [htamper] at hr
      cases hr
    · cases (congrArg Prod.snd h).symm.trans (conclude_error hend hf)

/-- **A run over entries that can be read ends without an error.** When none of them is out of
order and `root` is the root of the first `size` ones, there is no alarm. -/
theorem run_readable (root : Bytes) {db : Db} {size : Nat}
    (hread : Readable C size [] (db.entry.toList.map entryOf)) :
    ∃ r, run C R none (fun _ => {}) db size root = (r, .ok ()) ∧
      ∀ es : List Entry, db.entry.toList.map entryOf = es.map Except.ok →
        Entry.Chained none es → (∀ e ∈ es, e.Sound C) →
        rfc6962Root C ((es.take size).map Entry.leafHash) = root → r.tamper = false := by
  unfold run
  by_cases hz : size = 0
  · refine ⟨_, if_pos hz, fun es _ _ _ hroot => ?_⟩
    have hempty : emptyRoot C = root := by rwa [hz, take_zero] at hroot
    simp [hempty]
  · rw [if_neg hz]
    simp only
    rw [Db.iterateEntries_zero]
    rcases scan_readable hR (start_holds hR { size := size, expectedRoot := root })
        (Nat.zero_le _) hread with
      ⟨more, hpre, hlen, hholds, hend⟩ | ⟨htamper, hend, more, x, hpre, -, hbad⟩
    · rw [conclude_finish hend]
      rcases finish_holds hR rfl size root hholds with ⟨hne, -⟩ | ⟨-, hfin⟩
      · exact absurd (by simpa using hlen) hne
      · rw [hfin]
        refine ⟨_, rfl, fun es hes _ _ hroot => ?_⟩
        rw [hes, prefix_ok] at hpre
        have hmore : more = es.take size := by
          rw [prefix_iff_eq_take.mp hpre, ← hlen, length_nil, Nat.zero_add]
        simpa [hmore] using hroot
    · rw [conclude_finish (.inr hend), finish_tamper htamper]
      refine ⟨_, rfl, fun es hes hchained hsound _ => absurd ?_ hbad⟩
      rw [hes, prefix_ok] at hpre
      obtain ⟨rest, rfl⟩ := hpre
      have hfollows := (Entry.chained_concat.mp (Entry.chained_append.mp hchained).1).2
      rw [Entry.lastOr, Option.or_none] at hfollows
      exact ⟨hsound x (by simp), hfollows⟩

end

/-! ## Logs -/

variable {db : Db}

lemma entryOf_holds (h : db.Holds C es) : db.entry.toList.map entryOf = es.map Except.ok := by
  have hdecode : db.entry.toList.map entryOf =
      (db.entry.toList.map Prod.snd).map (Doc.decode Entry.unmarshal) := by
    rw [map_map]
    rfl
  rw [hdecode, h.entry.values_eq, map_map]
  exact map_congr_left fun e he => Entry.unmarshal_marshal (h.utf8 e he)

lemma readable_log {rest : List Entry}
    (hindex : ∀ (i : Nat) (e : Entry), (es ++ rest)[i]? = some e → e.index = i)
    (hle : es.length ≤ size) (hsize : size ≤ (es ++ rest).length) :
    Readable C size es (rest.map Except.ok) := by
  induction rest generalizing es with
  | nil =>
    rw [append_nil] at hsize
    exact Nat.le_antisymm hle hsize
  | cons e rest ih =>
    refine ⟨e, rfl, fun hlt => ⟨?_, fun _ _ => ?_⟩⟩
    · rw [hindex es.length e (by simp)]
      exact hlt
    · have hsplit : es ++ [e] ++ rest = es ++ e :: rest := by simp
      apply ih
      · rwa [hsplit]
      · simpa [Nat.succ_le_iff] using hlt
      · rwa [hsplit]

lemma run_clean (hR : R.Lawful (hashChildren C) (emptyRoot C) RngHolds) (h : db.Holds C es)
    (hsize : size ≤ es.length) :
    ∃ r, run C R none (fun _ => {}) db size (rfc6962Root C ((es.take size).map Entry.leafHash)) =
      (r, .ok ()) ∧ r.tamper = false := by
  have hread : Readable C size [] (db.entry.toList.map entryOf) := by
    rw [entryOf_holds h]
    refine readable_log (fun i e hi => ?_) (Nat.zero_le _) hsize
    simpa [Entry.nextIndex] using h.chained.index_eq hi
  obtain ⟨r, hrun, hclean⟩ := run_readable hR _ hread
  exact ⟨r, hrun, hclean es (entryOf_holds h) h.chained h.sound rfl⟩

def scanMessages (C : Crypto) (es : List Entry) : List Bytes :=
  treeMessages C (es.map Entry.leafHash) ++ es.flatMap (Entry.hashed C)

lemma Matches.agree {hs : List Entry} (h : Matches C db size root es) (hfits : ∀ e ∈ es, e.Fits)
    (hs_ok : Entry.Accepted C hs) (hlen : hs.length = size)
    (hroot : rfc6962Root C (hs.map Entry.leafHash) = root)
    (hcf : C.CollisionFree (scanMessages C hs ++ scanMessages C es)) :
    List.Forall₂ Entry.Agree hs es := by
  have hes_ok : Entry.Accepted C es := ⟨h.chained, h.sound, hfits⟩
  have hleaves : hs.map Entry.leafHash = es.map Entry.leafHash := by
    refine rfc6962Root_inj (C := C) ?_ ?_ ?_ ?_ (hroot.trans h.root.symm)
    · simpa using fun e he => (hs_ok.sound e he).leafHash_length
    · simpa using fun e he => (h.sound e he).leafHash_length
    · rw [length_map, length_map, hlen, h.length]
    · refine hcf.subset fun m hm => ?_
      simp only [scanMessages, mem_append] at hm ⊢
      tauto
  refine forall₂_iff_get.mpr ⟨hlen.trans h.length.symm, fun i hi hi' => ?_⟩
  have hi_mem := get_mem hs ⟨i, hi⟩
  have hi'_mem := get_mem es ⟨i, hi'⟩
  refine (hs_ok.sound _ hi_mem).agree_of_leafHash (h.sound _ hi'_mem) (hs_ok.fits _ hi_mem)
    (hfits _ hi'_mem) (hs_ok.prevHash_length hi_mem) (hes_ok.prevHash_length hi'_mem) ?_ ?_
  · refine hcf.subset fun m hm => ?_
    simp only [scanMessages, mem_append, mem_flatMap] at hm ⊢
    rcases hm with hm | hm
    · exact .inl (.inr ⟨_, hi_mem, hm⟩)
    · exact .inr (.inr ⟨_, hi'_mem, hm⟩)
  · have := congrArg (·[i]?) hleaves
    simpa [hi, hi'] using this

/-! ## Stores written by `AppendEntry` -/

def appended (calls : List (Option Err × Entry)) : Db :=
  Lib.run (fun db (call : Option Err × Entry) => (db.appendEntry call.1 call.2).1) Db.empty calls

lemma appendEntry_holds (h : db.Holds C es) (fault : Option Err) (hsound : e.Sound C)
    (hutf8 : e.IsUtf8) : ∃ es', (db.appendEntry fault e).1.Holds C es' := by
  unfold Db.appendEntry
  split
  · exact ⟨es, h⟩
  · rcases db.update_cases fault (Db.appendEntryTxn e) with ⟨db', htxn, heq⟩ | ⟨f, heq⟩
    · have hcopy := htxn
      simp only [Db.appendEntryTxn, bind_ok, ensure_ok, exists_const, pure_ok] at hcopy
      obtain ⟨size, hsize, hidx, head, hhead, hprev, -, -⟩ := hcopy
      rw [h.size] at hsize
      cases hsize
      rw [Db.readHead, h.headVal_eq] at hhead
      cases hhead
      obtain ⟨db'', htxn', hdb''⟩ := h.appendEntryTxn_ok hidx hprev hsound hutf8
      rw [htxn] at htxn'
      cases htxn'
      rw [heq]
      exact ⟨_, hdb''⟩
    · rw [heq]
      exact ⟨es, h⟩

lemma appended_holds {calls : List (Option Err × Entry)}
    (hcalls : ∀ call ∈ calls, call.2.Sound C ∧ call.2.IsUtf8) :
    ∃ es, (appended calls).Holds C es := by
  refine Lib.run_invariant (I := fun db : Db => ∃ es, db.Holds C es) ?_ ⟨[], Db.empty_holds⟩ hcalls
  rintro db ⟨fault, e⟩ ⟨hsound, hutf8⟩ ⟨es, hes⟩
  exact appendEntry_holds hes fault hsound hutf8

/-- **A clean run is sound and complete.** When `Run` returns no alarm and no error, on any store,
the store starts with `size` entries that are in order and have the expected root; so, unless
hashes collide, they agree with any log of that size and root on every hashed field. On a store
that `AppendEntry` wrote, given entries that pass `Verify`, a run at the root of its first leaves
is clean. -/
theorem clean_sound_and_complete (hR : R.Lawful (hashChildren C) (emptyRoot C) RngHolds) :
    (∀ (fault : Option Err) (faults : Nat → Db.ItemFaults) (db : Db) (size : Nat) (root : Bytes)
      (r : Result), run C R fault faults db size root = (r, .ok ()) → r.tamper = false →
      ∃ es, Matches C db size root es ∧
        ∀ hs, Entry.Accepted C hs → hs.length = size →
          rfc6962Root C (hs.map Entry.leafHash) = root → (∀ e ∈ es, e.Fits) →
          C.CollisionFree (scanMessages C hs ++ scanMessages C es) →
          List.Forall₂ Entry.Agree hs es) ∧
    (∀ calls : List (Option Err × Entry), (∀ call ∈ calls, call.2.Sound C ∧ call.2.IsUtf8) →
      ∀ size ≤ (appended calls).entry.toList.length,
        ∃ r, run C R none (fun _ => {}) (appended calls) size
            (rfc6962Root C (((appended calls).leaf.toList.map Prod.snd).take size)) =
          (r, .ok ()) ∧ r.tamper = false) := by
  refine ⟨fun fault faults db size root r hrun hr => ?_, fun calls hcalls size hsize => ?_⟩
  · obtain ⟨es, hes⟩ := clean_run hR hrun hr
    exact ⟨es, hes, fun hs hs_ok hlen hroot hfits hcf => hes.agree hfits hs_ok hlen hroot hcf⟩
  · obtain ⟨es, hes⟩ := appended_holds hcalls
    have hleaves : (appended calls).leaf.toList.map Prod.snd = es.map Entry.leafHash :=
      hes.leaf.values_eq
    rw [hes.entry.length_eq, length_map] at hsize
    rw [hleaves, ← map_take]
    exact run_clean hR hes hsize

def unsignedEntry : Entry :=
  .new .sample 1 0 none { auditedEnvelope [] with signature := List.replicate 64 0 } false

/-- `AppendEntry` does not verify what it stores, and the run says so. -/
theorem unsignedEntry_tamper :
    let db := appended [(none, unsignedEntry)]
    db.entry.toList.length = 1 ∧
    (run .sample (leafList (hashChildren .sample) (emptyRoot .sample)) none (fun _ => {}) db 1
      (rfc6962Root .sample ((db.leaf.toList.map Prod.snd).take 1))).1.tamper = true := by
  decide +kernel

theorem clean_sound_and_complete_sample :
    let log := appended [(none, auditedFirst (lit "x"))]
    let edited := { log with entry := log.entry.set 0 (some (auditedFirst []).marshal) }
    let root := rfc6962Root .sample ((log.leaf.toList.map Prod.snd).take 1)
    let runs (db : Db) := run .sample (leafList (hashChildren .sample) (emptyRoot .sample)) none
      (fun _ => {}) db 1 root
    (∃ r, runs log = (r, .ok ()) ∧ r.tamper = false) ∧ (runs edited).1.tamper = false ∧
    ∃ es, Matches .sample edited 1 root es ∧
      List.Forall₂ Entry.Agree [auditedFirst (lit "x")] es := by
  intro log edited root runs
  obtain ⟨hsound, hcomplete⟩ := clean_sound_and_complete
    (leafList_lawful (hashChildren .sample) (emptyRoot .sample))
  have hfirst (evidence : Bytes) (h : (auditedFirst evidence).verify .sample = .ok ()) :
      (auditedFirst evidence).Sound .sample := Entry.verify_ok.mp h
  refine ⟨hcomplete [(none, auditedFirst (lit "x"))] ?_ 1 (by decide +kernel),
    by decide +kernel, ?_⟩
  · rintro call (_ | ⟨_, ⟨⟩⟩)
    exact ⟨hfirst _ (by decide +kernel), fun env henv => by cases henv; decide +kernel⟩
  · obtain ⟨es, hes, hagree⟩ := hsound none (fun _ => {}) edited 1 root (runs edited).1
      (by decide +kernel) (by decide +kernel)
    have hstored : edited.entry.toList.map entryOf = [auditedFirst []].map Except.ok := by
      decide +kernel
    have hone : es = [auditedFirst []] := by
      have hpre := hes.stored
      rw [hstored] at hpre
      exact map_injective_iff.mpr (fun _ _ h => Except.ok.inj h)
        (hpre.eq_of_length (by simp [hes.length]))
    subst hone
    refine ⟨_, hes, hagree _ ⟨?_, ?_, ?_⟩ rfl (by decide +kernel) ?_ (by decide +kernel)⟩
    · exact ⟨⟨rfl, rfl⟩, trivial⟩
    · rintro e (_ | ⟨_, ⟨⟩⟩)
      exact hfirst _ (by decide +kernel)
    · rintro e (_ | ⟨_, ⟨⟩⟩)
      exact audited_fits (.inl rfl)
    · rintro e (_ | ⟨_, ⟨⟩⟩)
      exact audited_fits (.inl rfl)

end Stele.Tripwire
