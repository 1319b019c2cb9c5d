import Stele.Mirror.Mirror

/-!
# One synchronisation with a hostile upstream (`pkg/mirror`)

`syncOnce` from its request for the size to its return, with answers of any size and any content: a
list of entries may be empty, too long, or hold null. The loop counts in `uint64` and does not look
at how many entries an answer has.
-/

namespace Stele.Mirror

open Lib

/-- What `syncOnce` is answered: by the upstream, to the `k`-th request for entries, and by the
store, for entry `j` of that answer. -/
structure Answers where
  size : Except Err Nat
  entries : Nat → Except Err (List (Option Entry))
  fault : Nat → Nat → Option Err := fun _ _ => none

section
variable (C : Crypto)

def acceptEntries (fault : Nat → Option Err) :
    Nat → List (Option Entry) → Db → Proc → Db × Proc × Res Unit
  | _, [], db, m => (db, m, .ok ())
  | _, none :: _, db, m =>
    (db, m, .error (.panic "invalid memory address or nil pointer dereference"))
  | j, some e :: es, db, m =>
    match acceptEntry C (fault j) e db m with
    | (db, m, .error f) => (db, m, .error (f.wrap "mirror: entry %d rejected: %w" [.nat e.index]))
    | (db, m, .ok ()) => acceptEntries fault (j + 1) es db m

def syncLoop (cfg : Config) (a : Answers) (upstreamSize : Nat) :
    Nat → Nat → Nat → Db → Proc → Option (Db × Proc × Res Unit)
  | fuel, k, start, db, m =>
    if start < upstreamSize then
      match fuel with
      | 0 => none
      | fuel + 1 =>
        match a.entries k with
        | .error e => some (db, m, .error (.err e))
        | .ok es =>
          match acceptEntries C (a.fault k) 0 es db m with
          | (db, m, .error f) => some (db, m, .error f)
          | (db, m, .ok ()) =>
            syncLoop cfg a upstreamSize fuel (k + 1) ((start + cfg.chunk) % 2 ^ 64) db m
    else some (db, m, .ok ())

def syncOnce (cfg : Config) (a : Answers) (fuel : Nat) (db : Db) (m : Proc) :
    Option (Db × Proc × Res Unit) :=
  match a.size with
  | .error e => some (db, m, .error (.err e))
  | .ok upstreamSize =>
    if upstreamSize ≤ m.lastSize then some (db, m, .ok ())
    else syncLoop C cfg a upstreamSize fuel 0 m.lastSize db m

end

section
variable {C : Crypto} {cfg : Config} {a : Answers} {upstreamSize : Nat}

lemma acceptEntry_size {fault : Option Err} {e : Entry} {db db' : Db} {m m' : Proc}
    (h : acceptEntry C fault e db m = (db', m', .ok ())) : m'.lastSize = m.lastSize + 1 := by
  unfold acceptEntry at h
  split at h
  · cases h
  · split at h
    · cases h
    · cases h
      rfl

lemma acceptEntries_size {fault : Nat → Option Err} {j : Nat} {es : List (Option Entry)}
    {db db' : Db} {m m' : Proc} (h : acceptEntries C fault j es db m = (db', m', .ok ())) :
    m'.lastSize = m.lastSize + es.length := by
  induction es generalizing j db m with
  | nil =>
    cases h
    rfl
  | cons o es ih =>
    cases o with
    | none => cases h
    | some =>
      rw [acceptEntries] at h
      split at h
      · cases h
      · rename_i hone
        rw [ih h, acceptEntry_size hone, List.length_cons]
        omega

section
variable (hwrap : upstreamSize + cfg.chunk ≤ 2 ^ 64)
include hwrap

lemma syncLoop_ends {fuel k start : Nat} (hfuel : upstreamSize - start ≤ fuel) (db : Db)
    (m : Proc) : ∃ out, syncLoop C cfg a upstreamSize fuel k start db m = some out := by
  induction fuel generalizing k start db m with
  | zero =>
    rw [syncLoop, if_neg (by omega)]
    exact ⟨_, rfl⟩
  | succ fuel ih =>
    have hpos := cfg.chunk_pos
    rw [syncLoop]
    split
    · have hmod : (start + cfg.chunk) % 2 ^ 64 = start + cfg.chunk := Nat.mod_eq_of_lt (by omega)
      rw [hmod]
      split
      · exact ⟨_, rfl⟩
      · split
        · exact ⟨_, rfl⟩
        · exact ih (by omega) _ _
    · exact ⟨_, rfl⟩

/-- The mirror keeps up with the counter, when the answers from request `k` on are not short. -/
lemma syncLoop_covers {fuel k start : Nat} {db db' : Db} {m m' : Proc}
    (hfull : ∀ i es, a.entries (k + i) = .ok es →
      min cfg.chunk (upstreamSize - (start + i * cfg.chunk)) ≤ es.length)
    (hsize : min start upstreamSize ≤ m.lastSize)
    (h : syncLoop C cfg a upstreamSize fuel k start db m = some (db', m', .ok ())) :
    upstreamSize ≤ m'.lastSize := by
  induction fuel generalizing k start db m with
  | zero =>
    rw [syncLoop] at h
    split at h
    · cases h
    · cases h
      omega
  | succ fuel ih =>
    rw [syncLoop] at h
    split at h
    · have hmod : (start + cfg.chunk) % 2 ^ 64 = start + cfg.chunk := Nat.mod_eq_of_lt (by omega)
      rw [hmod] at h
      split at h
      · cases h
      · rename_i es hes
        split at h
        · cases h
        · rename_i hacc
          have hgrown := acceptEntries_size hacc
          have hmany := hfull 0 es hes
          refine ih (fun i es' hes' => ?_) ?_ h
          · rw [Nat.add_assoc, Nat.add_comm 1] at hes'
            have := hfull (i + 1) es' hes'
            rwa [Nat.succ_mul, Nat.add_comm (i * _), ← Nat.add_assoc] at this
          · omega
    · cases h
      omega

end

/-- A call makes at most as many requests as entries are missing. -/
lemma syncOnce_ends (hwrap : ∀ n, a.size = .ok n → n + cfg.chunk ≤ 2 ^ 64) (db : Db) (m : Proc) :
    ∃ fuel out, syncOnce C cfg a fuel db m = some out := by
  unfold syncOnce
  split
  · exact ⟨0, _, rfl⟩
  · rename_i n hsize
    refine ⟨n - m.lastSize, ?_⟩
    split
    · exact ⟨_, rfl⟩
    · exact syncLoop_ends (hwrap n hsize) (Nat.le_refl _) db m

def emptyLists (size : Nat) : Answers where
  size := .ok size
  entries _ := .ok []

lemma even_syncLoop (fuel k start : Nat) (heven : start % 2 = 0) (hlt : start < 2 ^ 64) (db : Db)
    (m : Proc) :
    syncLoop C ⟨[], 2⟩ (emptyLists (2 ^ 64 - 1)) (2 ^ 64 - 1) fuel k start db m = none := by
  induction fuel generalizing k start db m with
  | zero => rw [syncLoop, if_pos (by omega)]
  | succ fuel ih =>
    rw [syncLoop, if_pos (by omega)]
    have hchunk : Config.chunk ⟨[], 2⟩ = 2 := rfl
    rw [hchunk]
    exact ih _ _ (by omega) (by omega) _ _

end

end Stele.Mirror
