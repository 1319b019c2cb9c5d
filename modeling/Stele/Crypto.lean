import Stele.Lib.Fault

/-!
# The cryptography the program calls

`Crypto` stands for the primitives of the standard library and of `circl`: SHA-256, Ed25519 and
Dilithium3. They are parameters: every result holds for any functions with these types and lengths.
What a result needs beyond the lengths (that a signature verifies, that a key signs nothing else)
is a hypothesis of that result.
-/

namespace Stele

open Lib

structure Crypto where
  sha256 : Bytes → Bytes
  sha256_length (b : Bytes) : (sha256 b).length = 32
  /-- `edVerify pub msg sig`, for a public key of the right length. -/
  edVerify : Bytes → Bytes → Bytes → Bool
  edVerify_length {pub msg sig : Bytes} : edVerify pub msg sig = true → sig.length = 64
  edPublic : Bytes → Bytes
  edSign : Bytes → Bytes → Bytes
  /-- `dilVerify pub msg sig`, for a public key of the right length. -/
  dilVerify : Bytes → Bytes → Bytes → Bool
  dilVerify_ne_nil {pub msg sig : Bytes} : dilVerify pub msg sig = true → sig ≠ []
  dilPublic : Bytes → Bytes
  dilSign : Bytes → Bytes → Bytes

def edPublicKeySize : Nat := 32

def edSignatureSize : Nat := 64

def quantumPublicKeySize : Nat := 1952

def quantumSignatureSize : Nat := 3293

namespace Crypto

variable (C : Crypto)

def ed25519Verify (pub msg sig : Bytes) : Res Bool :=
  if pub.length = edPublicKeySize then .ok (C.edVerify pub msg sig)
  else .error (.panic "ed25519: bad public key length")

def checkEd (pub msg sig : Bytes) (e : Fault) : Res Unit := do
  let ok ← C.ed25519Verify pub msg sig
  ensure (ok = true) e

/-- `(*mode3.PublicKey).UnmarshalBinary`: the key itself when its length is right. -/
def decodeQuantum (pub : Bytes) : Res Bytes :=
  if pub.length = quantumPublicKeySize then .ok pub
  else .error (errorf "packed public key must be of mode3.PublicKeySize bytes" [])

def EdValid (pub msg sig : Bytes) : Prop :=
  pub.length = edPublicKeySize ∧ C.edVerify pub msg sig = true

def DilValid (pub msg sig : Bytes) : Prop :=
  pub.length = quantumPublicKeySize ∧ C.dilVerify pub msg sig = true

instance (pub msg sig : Bytes) : Decidable (C.EdValid pub msg sig) :=
  inferInstanceAs (Decidable (_ ∧ _))

instance (pub msg sig : Bytes) : Decidable (C.DilValid pub msg sig) :=
  inferInstanceAs (Decidable (_ ∧ _))

/-- No two of the messages collide under SHA-256. No function of fixed length has this for all
messages, so it is asked for of the messages at hand. -/
def CollisionFree (msgs : List Bytes) : Prop :=
  ∀ a ∈ msgs, ∀ b ∈ msgs, C.sha256 a = C.sha256 b → a = b

instance (msgs : List Bytes) : Decidable (C.CollisionFree msgs) :=
  inferInstanceAs (Decidable (∀ a ∈ msgs, ∀ b ∈ msgs, _))

variable {C}

lemma CollisionFree.subset {msgs msgs' : List Bytes} (h : C.CollisionFree msgs)
    (hsub : msgs' ⊆ msgs) : C.CollisionFree msgs' :=
  fun a ha b hb => h a (hsub ha) b (hsub hb)

lemma CollisionFree.flatMap_subset {α : Type} {f : α → List Bytes} {l l' : List α}
    (h : C.CollisionFree (l.flatMap f)) (hsub : l' ⊆ l) : C.CollisionFree (l'.flatMap f) := by
  refine h.subset fun m hm => ?_
  obtain ⟨x, hx, hmx⟩ := List.mem_flatMap.mp hm
  exact List.mem_flatMap.mpr ⟨x, hsub hx, hmx⟩

@[simp] lemma checkEd_ok {pub msg sig : Bytes} {e : Fault} {u : Unit} :
    C.checkEd pub msg sig e = .ok u ↔ C.EdValid pub msg sig := by
  unfold checkEd ed25519Verify EdValid
  split <;> simp [*]

@[simp] lemma noPanic_checkEd {pub msg sig : Bytes} {format : String} {args : List Arg} :
    NoPanic (C.checkEd pub msg sig (errorf format args)) ↔ pub.length = edPublicKeySize := by
  unfold checkEd ed25519Verify
  split <;> simp [*]

@[simp] lemma noPanic_decodeQuantum (pub : Bytes) : NoPanic (decodeQuantum pub) := by
  unfold decodeQuantum
  split <;> simp

@[simp] lemma decodeQuantum_ok {pub key : Bytes} :
    decodeQuantum pub = .ok key ↔ pub.length = quantumPublicKeySize ∧ pub = key := by
  unfold decodeQuantum
  split <;> simp [*, errorf]

def fit (n : Nat) (b : Bytes) : Bytes := (b ++ List.replicate n 0).take n

lemma fit_length (n : Nat) (b : Bytes) : (fit n b).length = n := by simp [fit]

/-- Concrete primitives to evaluate the model with: a key is its own public half, and a signature
is the key and the message, cut to size. -/
def sample : Crypto where
  sha256 := fit 32
  sha256_length := fit_length 32
  edVerify pub msg sig := sig = fit 64 (pub ++ msg)
  edVerify_length h := by simp only [decide_eq_true_eq] at h; rw [h]; exact fit_length 64 _
  edPublic priv := priv
  edSign priv msg := fit 64 (priv ++ msg)
  dilVerify pub msg sig := sig = fit 3293 (pub ++ msg)
  dilVerify_ne_nil h := by
    simp only [decide_eq_true_eq] at h
    rw [h]
    exact List.ne_nil_of_length_pos (by rw [fit_length]; decide)
  dilPublic priv := priv
  dilSign priv msg := fit 3293 (priv ++ msg)

end Crypto

end Stele
