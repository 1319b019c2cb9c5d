import Stele.Core.Log
import Stele.Lib.Runs
import Mathlib.Logic.Function.Basic

/-!
# The operator as a machine

Any number of threads call `AppendCtx` and `CheckpointCtx` of one `Log`. A step of a thread runs
from one synchronisation point to the next: one BadgerDB transaction, or what a thread does when it
holds `Log.mu` and touches the tree only. Between two steps the process may crash, which leaves the
store, and `New` starts it again.

A panic ends a call like an error does (`net/http` recovers it, a deferred unlock runs); a panic
that nobody recovers is this step and a crash.
-/

namespace Stele.Core

open Lib

abbrev Tid := Nat

inductive Pc
  | idle
  | appendCheck (env : Option Envelope) (honeypot : Bool)
  | appendLock (env : Envelope) (honeypot : Bool)
  | appendRecord (idx : Nat) (env : Envelope) (honeypot : Bool)
  | appendHead (idx : Nat) (env : Envelope) (honeypot : Bool)
  | appendEntry (e : Entry)
  | appendTree (e : Entry)
  | ckptLock
  | ckptHead (root : Bytes)
  | ckptSign (size : Nat) (root head : Bytes)
  | ckptGather (c : Checkpoint)
  | ckptSave (c : Checkpoint)

inductive Ret
  | entry (e : Entry)
  | checkpoint (c : Checkpoint)
  | failed (f : Fault)

structure Proc (R : RangeImpl Bytes) where
  tree : Tree R
  mu : Option Tid
  pc : Tid → Pc

namespace Proc

variable {R : RangeImpl Bytes}

def goto (p : Proc R) (t : Tid) (x : Pc) : Proc R := { p with pc := Function.update p.pc t x }

def enter (p : Proc R) (t : Tid) (x : Pc) : Proc R := { p.goto t x with mu := some t }

def leave (p : Proc R) (t : Tid) (x : Pc) : Proc R := { p.goto t x with mu := none }

end Proc

section
variable (C : Crypto) {R : RangeImpl Bytes}

def threadStep (opts : Options) (t : Tid) (r : Reads) (db : Db) (p : Proc R) :
    Db × Proc R × Option Ret :=
  match p.pc t with
  | .idle => (db, p, none)
  | .appendCheck env honeypot =>
    match checkAppend C opts r db env with
    | .error f => (db, p.goto t .idle, some (.failed f))
    | .ok env => (db, p.goto t (.appendLock env honeypot), none)
  | .appendLock env honeypot =>
    match p.mu with
    | some _ => (db, p, none)
    | none => (db, p.enter t (.appendRecord p.tree.size env honeypot), none)
  | .appendRecord idx env honeypot =>
    match db.checkAndRecordEnvelope r.fault opts.replayTTL r.now (env.hash C) idx with
    | (db, .error f) => (db, p.leave t .idle, some (.failed (f.wrap "core: %w" [])))
    | (db, .ok ()) => (db, p.goto t (.appendHead idx env honeypot), none)
  | .appendHead idx env honeypot =>
    match db.headHash r.fault with
    | .error f => (db, p.leave t .idle, some (.failed f))
    | .ok head => (db, p.goto t (.appendEntry (nextEntry C r.now idx head env honeypot)), none)
  | .appendEntry e =>
    match db.appendEntry r.fault e with
    | (db, .error f) => (db, p.leave t .idle, some (.failed f))
    | (db, .ok ()) => (db, p.goto t (.appendTree e), none)
  | .appendTree e =>
    match p.tree.appendLeafHash e.leafHash with
    | .error f => (db, p.leave t .idle, some (.failed f))
    | .ok (tree, _) => (db, { p with tree := tree }.leave t .idle, some (.entry e))
  | .ckptLock =>
    match p.mu with
    | some _ => (db, p, none)
    | none =>
      match p.tree.root C with
      -- there is no deferred unlock here
      | .error f => (db, p.enter t .idle, some (.failed f))
      | .ok root => (db, p.enter t (.ckptHead root), none)
  | .ckptHead root =>
    match db.headHash r.fault with
    | .error f => (db, p.leave t .idle, some (.failed f))
    | .ok head => (db, p.leave t (.ckptSign p.tree.size root head), none)
  | .ckptSign size root head =>
    match signCheckpoint C r size root head with
    | .error f => (db, p.goto t .idle, some (.failed f))
    | .ok c => (db, p.goto t (.ckptGather c), none)
  | .ckptGather c => (db, p.goto t (.ckptSave (gatherWitnessSignatures r c)), none)
  | .ckptSave c =>
    match db.saveCheckpoint r.fault c.size c.marshal with
    | (db, .error f) => (db, p.goto t .idle, some (.failed f))
    | (db, .ok ()) => (db, p.goto t .idle, some (.checkpoint c))

structure State (R : RangeImpl Bytes) where
  db : Db
  proc : Option (Proc R)
  returned : List Ret

def init (R : RangeImpl Bytes) : State R := ⟨.empty, none, []⟩

inductive Action
  | callAppend (t : Tid) (env : Option Envelope) (honeypot : Bool)
  | callCheckpoint (t : Tid)
  | thread (t : Tid) (r : Reads)
  | registerProducer (fault : Option Err) (now : Int) (p : Producer)
  | revokeProducer (fault : Option Err) (now : Int) (id reason : Bytes)
  | crash
  | start (faults : Nat → ReplayFaults)

def begin (s : State R) (t : Tid) (x : Pc) : State R :=
  match s.proc with
  | none => s
  | some p =>
    match p.pc t with
    | .idle => { s with proc := some (p.goto t x) }
    | _ => s

def step (opts : Options) (s : State R) : Action → State R
  | .callAppend t env honeypot => begin s t (.appendCheck env honeypot)
  | .callCheckpoint t => begin s t .ckptLock
  | .thread t r =>
    match s.proc with
    | none => s
    | some p =>
      let (db, p, ret) := threadStep C opts t r s.db p
      ⟨db, some p, s.returned ++ ret.toList⟩
  | .registerProducer fault now p => { s with db := (s.db.registerProducer fault now p).1 }
  | .revokeProducer fault now id reason =>
    { s with db := (s.db.revokeProducer fault now id reason).1 }
  | .crash => { s with proc := none }
  | .start faults =>
    match s.proc with
    | some _ => s
    | none =>
      match newLog C R opts faults s.db with
      | (db, .error _) => { s with db := db }
      | (db, .ok tree) => { s with db := db, proc := some ⟨tree, none, fun _ => .idle⟩ }

def Action.IsUtf8 : Action → Prop
  | .callAppend _ (some env) _ => env.IsUtf8
  | _ => True

instance (a : Action) : Decidable a.IsUtf8 := by
  cases a with
  | callAppend t env honeypot =>
    cases env with
    | none => exact .isTrue trivial
    | some env => exact inferInstanceAs (Decidable env.IsUtf8)
  | _ => exact .isTrue trivial

end

end Stele.Core
