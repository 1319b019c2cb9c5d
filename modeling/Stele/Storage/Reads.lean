import Stele.Checkpoint.Json
import Stele.Storage.Store

/-!
# Reading the store (`pkg/storage`)

`IterateEntries`, and the lookup of the latest checkpoint, on a store of any content.
-/

namespace Stele.Db

open Lib List

structure ItemFaults where
  ctx : Option Err := none
  value : Option Err := none

def itemEntry (f : ItemFaults) (doc : Doc) : Res Entry :=
  match f.ctx, f.value with
  | some e, _ => .error (.err e)
  | none, some e => .error (.err e)
  | none, none => doc.decode Entry.unmarshal

def iterate {σ : Type} (faults : Nat → ItemFaults) (fn : σ → Entry → σ × Res Unit) :
    List (Nat × Doc) → σ → σ × Res Unit
  | [], s => (s, .ok ())
  | (key, doc) :: items, s =>
    match itemEntry (faults key) doc with
    | .error f => (s, .error f)
    | .ok e =>
      match fn s e with
      | (s, .error f) => (s, .error f)
      | (s, .ok ()) => iterate faults fn items s

def iterateEntries {σ : Type} (fault : Option Err) (faults : Nat → ItemFaults) (start : Nat)
    (fn : σ → Entry → σ × Res Unit) (s : σ) (db : Db) : σ × Res Unit :=
  match fault with
  | some e => (s, .error (.err e))
  | none => iterate faults fn (db.entry.toList.filter fun kv => start ≤ kv.1) s

lemma itemEntry_ok {f : ItemFaults} {doc : Doc} {e : Entry} (h : itemEntry f doc = .ok e) :
    doc.decode Entry.unmarshal = .ok e := by
  unfold itemEntry at h
  split at h
  · cases h
  · cases h
  · exact h

lemma iterateEntries_zero {σ : Type} (faults : Nat → ItemFaults) (fn : σ → Entry → σ × Res Unit)
    (s : σ) (db : Db) :
    db.iterateEntries none faults 0 fn s = iterate faults fn db.entry.toList s := by
  simp [iterateEntries]

def getSize (fault : Option Err) (db : Db) : Res Nat :=
  db.view fault fun db =>
    match db.size with
    | none => .ok 0
    | some (.u64 n) => .ok n
    | some (.other len) => .error (errorf "meta/size has wrong length %d" [.nat len])

def getCheckpoint (fault : Option Err) (atSize : Nat) (db : Db) : Res (Option (Doc × Nat)) :=
  db.view fault fun db =>
    .ok ((db.ckpt.toList.filter fun kv => kv.1 ≤ atSize).getLast?.map Prod.swap)

def latestCheckpoint (size ckpt : Option Err) (db : Db) : Res (Option (Doc × Nat)) := do
  let curSize ← db.getSize size
  if curSize = 0 then return none else db.getCheckpoint ckpt curSize

lemma getCheckpoint_last {db : Db} {atSize n : Nat} {doc : Doc}
    (hlast : db.ckpt.toList.getLast? = some (n, doc)) (hn : n ≤ atSize) :
    db.getCheckpoint none atSize = .ok (some (doc, n)) := by
  have hall : (db.ckpt.toList.filter fun kv => kv.1 ≤ atSize) = db.ckpt.toList := by
    rw [filter_eq_self]
    intro kv hkv
    obtain ⟨init, hinit⟩ := getLast?_eq_some_iff.mp hlast
    have hsorted := db.ckpt.sorted
    rw [hinit] at hkv hsorted
    rw [map_append, map_singleton] at hsorted
    rcases mem_append.mp hkv with hkv | hkv
    · have hlt := (pairwise_append.mp hsorted).2.2 kv.1 (mem_map_of_mem hkv) n (by simp)
      simp only [decide_eq_true_eq]
      omega
    · rw [mem_singleton.mp hkv]
      simpa using hn
  simp only [getCheckpoint, view, hall, hlast]
  rfl

end Stele.Db
