import Stele.Core.Guarantees
import Stele.Core.Stored
import Stele.Tripwire.Scan

/-!
# The tripwire on an edited store

`runOnce` compares the store with the newest checkpoint that it finds. What it finds, and whether
the comparison is made at all, depends on what was edited.
-/

namespace Stele.Tripwire

open Lib List Core

/-- How a pass of the background runner ends. `OnTamper` is called with the result of `tamper`. -/
inductive Outcome
  | error
  | skipped
  | tamper (r : Result)
  | ok
  deriving DecidableEq

section
variable (C : Crypto) (R : RangeImpl Bytes)

def runOnce (size ckpt fault : Option Err) (faults : Nat → Db.ItemFaults) (db : Db) :
    Res Outcome :=
  match latestCheckpoint size ckpt db with
  | .error (.panic w) => .error (.panic w)
  | .error (.err _) => .ok .error
  | .ok none => .ok .skipped
  | .ok (some c) =>
    match run C R fault faults db c.size c.rootHash with
    | (_, .error (.panic w)) => .error (.panic w)
    | (_, .error (.err _)) => .ok .error
    | (r, .ok ()) => .ok (if r.tamper = true then .tamper r else .ok)

end

variable {C : Crypto} {R : RangeImpl Bytes} {RngHolds : R.Rng → List Bytes → Prop}

/-- **A store in which the newest checkpoint, of size `newest`, can be compared with the
entries.** -/
structure Legible (C : Crypto) (db : Db) (newest : Nat) : Prop where
  last : db.ckpt.toList.getLast?.map Prod.fst = some newest
  size : ∃ size, db.size = some (.u64 size) ∧ newest ≤ size
  read : Readable C newest [] (db.entry.toList.map entryOf)

def decoded (db : Db) : List Entry := (db.entry.toList.map entryOf).filterMap Except.toOption

def Starts (n : Nat) (es : List Entry) (db : Db) : Prop :=
  (db.entry.toList.take n).map entryOf = (es.take n).map Except.ok

def DiffersHashed (n : Nat) (es : List Entry) (db : Db) : Prop :=
  ∀ i < n, ∀ e x, es[i]? = some e → (db.entry.toList.map entryOf)[i]? = some (.ok x) →
    e.Agree x → e = x

lemma take_decoded {db : Db} {xs : List Entry}
    (h : xs.map Except.ok <+: db.entry.toList.map entryOf) :
    (decoded db).take xs.length = xs := by
  obtain ⟨rest, hrest⟩ := h
  rw [decoded, ← hrest, filterMap_append, filterMap_map]
  have hxs : xs.filterMap (Except.toOption ∘ (Except.ok : Entry → Res Entry)) = xs := filterMap_some
  rw [hxs, take_left]

lemma starts_of_stored {db : Db} {n : Nat} {es xs : List Entry}
    (h : xs.map Except.ok <+: db.entry.toList.map entryOf) (hn : n ≤ xs.length)
    (heq : xs.take n = es.take n) : Starts n es db := by
  obtain ⟨rest, hrest⟩ := h
  rw [Starts, map_take, ← hrest, take_append_of_le_length (by simpa using hn), ← map_take, heq]

/-- **Every divergence in a hashed field raises the alarm, on a legible store.** The store is
reached by a run of the operator, with the entries `es`, and then edited in any way that keeps the
checkpoints; for some checkpoint the first entries are not the ones that it was made of. -/
theorem legible_divergence_alarms (hR : R.Lawful (hashChildren C) (emptyRoot C) RngHolds)
    (opts : Options) {as : List Action} (has : ∀ a ∈ as, a.IsUtf8) {edited : Db}
    (hckpt : edited.ckpt = (Lib.run (step C opts) (init R) as).db.ckpt)
    {es : List Entry} (hes : (Lib.run (step C opts) (init R) as).db.Holds C es)
    {newest : Nat} (hlegible : Legible C edited newest)
    (hhashed : DiffersHashed newest es edited) (hfits : ∀ e ∈ es ++ decoded edited, e.Fits)
    (hcf : C.CollisionFree
      (scanMessages C (es.take newest) ++ scanMessages C ((decoded edited).take newest)))
    {n : Nat} (hpos : 0 < n) (hn : (edited.ckpt.get n).isSome = true)
    (hdiverges : ¬ Starts n es edited) :
    ∃ r, runOnce C R none none none (fun _ => {}) edited = .ok (.tamper r) := by
  have hrec : Recorded C es edited := (run_recorded hR opts has hes).of_eq hckpt
  obtain ⟨⟨newest, doc⟩, hlast, rfl⟩ := Option.map_eq_some_iff.mp hlegible.last
  simp only at hlegible hhashed hcf
  obtain ⟨size, hsize, hle⟩ := hlegible.size
  have hmax : n ≤ newest := by
    obtain ⟨v, hv⟩ := Option.isSome_iff_exists.mp hn
    exact OrdMap.le_of_getLast hv hlast
  obtain ⟨c, hlatest, hcsize, hcroot, hlen⟩ := latestCheckpoint_newest hrec hlast hsize hle
    (Nat.lt_of_lt_of_le hpos hmax)
  obtain ⟨r, hrun, -⟩ := run_readable hR c.rootHash hlegible.read
  refine ⟨r, ?_⟩
  have htamper : r.tamper = true := by
    -- a clean run has read entries that agree with the log, so they are the log's
    by_contra hclean
    obtain ⟨xs, hxs⟩ := clean_run hR hrun (by simpa using hclean)
    have htake := take_decoded hxs.stored
    rw [hxs.length] at htake
    have htaken : ∀ e ∈ es.take newest, e ∈ es := fun e he => mem_of_mem_take he
    have hlog : Entry.Accepted C (es.take newest) := by
      refine ⟨?_, fun e he => hes.sound e (htaken e he),
        fun e he => hfits e (mem_append_left _ (htaken e he))⟩
      have hchained : Entry.Chained none (es.take newest ++ es.drop newest) := by
        rw [take_append_drop]
        exact hes.chained
      exact (Entry.chained_append.mp hchained).1
    have hagree : List.Forall₂ Entry.Agree (es.take newest) xs := by
      refine hxs.agree (fun e he => hfits e (mem_append_right _ ?_)) hlog ?_ hcroot.symm ?_
      · rw [← htake] at he
        exact mem_of_mem_take he
      · rw [length_take, Nat.min_eq_left hlen]
      · rwa [htake] at hcf
    have heq : es.take newest = xs := by
      rw [← forall₂_eq_eq_eq]
      obtain ⟨hlength, hget⟩ := forall₂_iff_get.mp hagree
      refine forall₂_iff_get.mpr ⟨hlength, fun i hi hi' => ?_⟩
      refine hhashed i (by rwa [hxs.length] at hi') _ _ ?_ ?_ (hget i hi hi')
      · rw [get_eq_getElem, getElem_take, ← getElem?_eq_getElem]
      · have hstored := hxs.stored.getElem (i := i) (by simpa using hi')
        rw [getElem?_eq_getElem (Nat.lt_of_lt_of_le (by simpa using hi')
          hxs.stored.length_le), ← hstored, getElem_map, get_eq_getElem]
    exact hdiverges (starts_of_stored hxs.stored (by rwa [hxs.length]) (by
      rw [← heq, take_take, Nat.min_eq_left hmax]))
  rw [runOnce, hlatest]
  simp only [hcsize, hrun, htamper, if_true]

/-! ## Edits that go unnoticed -/

def watchedRun : List Action :=
  [.start fun _ => {}, .registerProducer none 1 { id := lit "p", publicKey := List.replicate 32 5 },
    .callAppend 0 (some (auditedEnvelope (lit "x"))) false] ++ steps 0 6 ++
  [.callCheckpoint 0] ++ steps 0 5

def watched : Db := (Lib.run (step .sample {}) (init sampleRange) watchedRun).db

def watchedEntry (evidence : Bytes) : Entry :=
  nextEntry .sample sampleReads.now 0 zeroHash (auditedEnvelope evidence) false

def pass (db : Db) : Res Outcome := runOnce .sample sampleRange none none none (fun _ => {}) db

def rewritten (doc : Doc) : Db := { watched with entry := watched.entry.set 0 doc }

instance (n : Nat) (es : List Entry) (db : Db) : Decidable (Starts n es db) :=
  inferInstanceAs (Decidable (_ = _))

/-- **Divergences that raise no alarm.** The run leaves one entry and a checkpoint of it. An entry
that does not decode, a missing one and one with a larger index end the pass in an error; with
`meta/size` reset it is skipped, and with a wrong length it ends in an error; and with the
evidence removed the entry passes. -/
theorem divergence_without_alarm :
    let es := [watchedEntry (lit "x")]
    let later := { auditedFirst [] with index := 7 }
    let reset (size : U64Val) := { rewritten (some later.marshal) with size := some size }
    (Starts 1 es watched ∧ (watched.ckpt.get 1).isSome = true ∧ pass watched = .ok .ok) ∧
    (¬ Starts 1 es (rewritten none) ∧ pass (rewritten none) = .ok .error) ∧
    (¬ Starts 1 es { watched with entry := .empty } ∧
      pass { watched with entry := .empty } = .ok .error) ∧
    (¬ Starts 1 es (rewritten (some later.marshal)) ∧
      pass (rewritten (some later.marshal)) = .ok .error) ∧
    (¬ Starts 1 es (reset (.u64 0)) ∧ pass (reset (.u64 0)) = .ok .skipped) ∧
    (¬ Starts 1 es (reset (.other 3)) ∧ pass (reset (.other 3)) = .ok .error) ∧
    (¬ Starts 1 es (rewritten (some (watchedEntry []).marshal)) ∧
      pass (rewritten (some (watchedEntry []).marshal)) = .ok .ok) := by
  decide +kernel

theorem legible_divergence_alarms_sample :
    ∃ r, pass (rewritten (some (auditedFirst []).marshal)) = .ok (.tamper r) := by
  have has : ∀ a ∈ watchedRun, a.IsUtf8 := by decide +kernel
  obtain ⟨es, hinv⟩ := run_inv
    (leafList_lawful (hashChildren .sample) (emptyRoot .sample)) {} has
  have hes : es = [watchedEntry (lit "x")] := by
    have hstored := entryOf_holds hinv.db
    have hone : watched.entry.toList.map entryOf = [watchedEntry (lit "x")].map Except.ok := by
      decide +kernel
    exact map_injective_iff.mpr (fun _ _ h => Except.ok.inj h) (hstored.symm.trans hone)
  subst hes
  have hitems : (rewritten (some (auditedFirst []).marshal)).entry.toList.map entryOf =
      [.ok (auditedFirst [])] := by decide +kernel
  refine legible_divergence_alarms (leafList_lawful (hashChildren .sample) (emptyRoot .sample)) {}
    has (show (rewritten (some (auditedFirst []).marshal)).ckpt = watched.ckpt from rfl) hinv.db
    (show Legible .sample _ 1 from
      ⟨by decide +kernel, ⟨1, by decide +kernel, Nat.le.refl⟩, ?_⟩) ?_ ?_ (by decide +kernel)
    (n := 1) Nat.one_pos (by decide +kernel) (by decide +kernel)
  · rw [hitems]
    exact ⟨_, rfl, fun _ => ⟨by decide, fun _ _ => rfl⟩⟩
  · intro i hi e x he hx hagree
    obtain rfl : i = 0 := by omega
    rw [hitems] at hx
    cases he
    cases hx
    exact absurd hagree.timeNanos (by decide)
  · have hdecoded : decoded (rewritten (some (auditedFirst []).marshal)) = [auditedFirst []] := by
      rw [decoded, hitems]
      rfl
    rw [hdecoded]
    rintro e (_ | ⟨_, _ | ⟨_, ⟨⟩⟩⟩)
    · exact ⟨show 0 < 2 ^ 64 by decide, show IsInt64 0 by decide,
        fun env henv => by cases henv; exact auditedEnvelope_fits⟩
    · exact audited_fits (.inl rfl)

end Stele.Tripwire
