import Stele.Crypto
import Stele.Lib.Text

/-!
# Key files

The text of a file of `FileKeyStore`, and how `Load` reads it. A classical key is one line of
base64; a hybrid key is two lines with labels. White space is ASCII here.
-/

namespace Stele.Keys

open Lib List

def edPrivateKeySize : Nat := 64

def quantumPrivateKeySize : Nat := 4000

abbrev EdKey := { b : Bytes // b.length = edPrivateKeySize }

abbrev DilKey := { b : Bytes // b.length = quantumPrivateKeySize }

/-- The signature schemes work: keys and signatures have their lengths, and what a key signs
verifies under its public half. -/
structure Correct (C : Crypto) : Prop where
  edPublic_length : ∀ k : EdKey, (C.edPublic k).length = edPublicKeySize
  edVerify_edSign : ∀ (k : EdKey) (msg : Bytes),
    C.edVerify (C.edPublic k) msg (C.edSign k msg) = true
  dilPublic_length : ∀ q : DilKey, (C.dilPublic q).length = quantumPublicKeySize
  dilSign_length : ∀ (q : DilKey) (msg : Bytes), (C.dilSign q msg).length = quantumSignatureSize
  dilVerify_dilSign : ∀ (q : DilKey) (msg : Bytes),
    C.dilVerify (C.dilPublic q) msg (C.dilSign q msg) = true

def paired : Crypto :=
  { Crypto.sample with
    edPublic := Crypto.fit edPublicKeySize
    edSign := fun priv msg => Crypto.fit 64 (Crypto.fit edPublicKeySize priv ++ msg)
    dilPublic := Crypto.fit quantumPublicKeySize
    dilSign := fun priv msg => Crypto.fit 3293 (Crypto.fit quantumPublicKeySize priv ++ msg) }

lemma paired_correct : Correct paired where
  edPublic_length _ := Crypto.fit_length _ _
  edVerify_edSign _ _ := decide_eq_true rfl
  dilPublic_length _ := Crypto.fit_length _ _
  dilSign_length _ _ := Crypto.fit_length _ _
  dilVerify_dilSign _ _ := decide_eq_true rfl

/-! ## The text -/

def encodePrivate (priv : Bytes) : Option Bytes → Bytes
  | none => b64 priv ++ [newline]
  | some qPriv =>
    lit "ed25519: " ++ b64 priv ++ (newline :: lit "dilithium3: ") ++ b64 qPriv ++ [newline]

def isSpace (c : UInt8) : Bool := c = 32 || (9 ≤ c && c ≤ 13)

def trimSpace (s : Bytes) : Bytes := ((s.dropWhile isSpace).reverse.dropWhile isSpace).reverse

def isBlank (c : UInt8) : Bool := isSpace c && c ≠ newline

/-! ### `fmt.Sscanf(raw, "ed25519: %s\ndilithium3: %s")` -/

def scanLiteral : Bytes → Bytes → Res Bytes
  | [], s => .ok s
  | _ :: _, [] => .error (errorf "unexpected EOF" [])
  | c :: cs, d :: s =>
    if c = d then scanLiteral cs s else .error (errorf "input does not match format" [])

def scanSpace : Bytes → Res Bytes
  | [] => .ok []
  | c :: s => do
    ensure (isSpace c = true) (errorf "expected space in input to match format" [])
    ensure (c ≠ newline) (errorf "newline in input does not match format" [])
    return s.dropWhile isBlank

def scanString (s : Bytes) : Res (Bytes × Bytes) :=
  match s.dropWhile isBlank with
  | [] => .error (errorf "unexpected EOF" [])
  | c :: s =>
    if c = newline then .error (errorf "unexpected newline" [])
    else .ok ((c :: s).takeWhile (!isSpace ·), (c :: s).dropWhile (!isSpace ·))

def scanNewline (s : Bytes) : Res Bytes :=
  match s.dropWhile isBlank with
  | [] => .ok []
  | c :: s =>
    if c = newline then .ok s else .error (errorf "newline in format does not match input" [])

def scanHybrid (raw : Bytes) : Res (Bytes × Bytes) := do
  let s ← scanLiteral (lit "ed25519:") raw
  let s ← scanSpace s
  let (edB64, s) ← scanString s
  let s ← scanNewline s
  let s ← scanLiteral (lit "dilithium3:") s
  let s ← scanSpace s
  let (dB64, _) ← scanString s
  return (edB64, dB64)

def decodeString (s : Bytes) : Res Bytes :=
  match unb64 s with
  | some b => .ok b
  | none => .error (errorf "illegal base64 data" [])

def decodeHybrid (raw : Bytes) : Res (Bytes × Option Bytes) := do
  let (edB64, dB64) ← wrapErr "file keystore: parse hybrid: %w" [] (scanHybrid raw)
  let edBytes ← decodeString edB64
  ensure (edBytes.length = edPrivateKeySize)
    (errorf "file keystore: ed25519 wrong length %d" [.nat edBytes.length])
  let dBytes ← decodeString dB64
  ensure (dBytes.length = quantumPrivateKeySize)
    ((errorf "packed private key must be of mode3.PrivateKeySize bytes" []).wrap
      "file keystore: dilithium unmarshal: %w" [])
  return (edBytes, some dBytes)

def decodeClassical (raw : Bytes) : Res (Bytes × Option Bytes) := do
  let decoded ← wrapErr "file keystore: decode: %w" [] (decodeString (trimSpace raw))
  ensure (decoded.length = edPrivateKeySize)
    (errorf "file keystore: key length %d, want %d" [.nat decoded.length, .nat edPrivateKeySize])
  return (decoded, none)

def decodePrivate (raw : Bytes) : Res (Bytes × Option Bytes) :=
  if lit "ed25519:" <+: raw then decodeHybrid raw else decodeClassical raw

variable {s : Bytes}

lemma decodeString_ok {b : Bytes} : decodeString s = .ok b ↔ unb64 s = some b := by
  unfold decodeString
  split <;> simp [*]

variable {raw k : Bytes} {q : Option Bytes}

lemma decodeHybrid_ok :
    decodeHybrid raw = .ok (k, q) ↔
      ∃ a b d, scanHybrid raw = .ok (a, b) ∧ unb64 a = some k ∧ k.length = edPrivateKeySize ∧
        unb64 b = some d ∧ d.length = quantumPrivateKeySize ∧ q = some d := by
  simp only [decodeHybrid, bind_ok, wrapErr_ok, ensure_ok, exists_const, pure_ok, decodeString_ok,
    Prod.mk.injEq, Prod.exists]
  constructor
  · rintro ⟨a, b, hscan, k', hk, hlen, d, hd, hdlen, rfl, rfl⟩
    exact ⟨a, b, d, hscan, hk, hlen, hd, hdlen, rfl⟩
  · rintro ⟨a, b, d, hscan, hk, hlen, hd, hdlen, rfl⟩
    exact ⟨a, b, hscan, k, hk, hlen, d, hd, hdlen, rfl, rfl⟩

lemma decodeClassical_ok :
    decodeClassical raw = .ok (k, q) ↔
      unb64 (trimSpace raw) = some k ∧ k.length = edPrivateKeySize ∧ q = none := by
  simp only [decodeClassical, bind_ok, wrapErr_ok, ensure_ok, exists_const, pure_ok,
    decodeString_ok, Prod.mk.injEq]
  constructor
  · rintro ⟨k', hk, hlen, rfl, rfl⟩
    exact ⟨hk, hlen, rfl⟩
  · rintro ⟨hk, hlen, rfl⟩
    exact ⟨k, hk, hlen, rfl, rfl⟩

/-! ## The round trip -/

lemma b64_word (s : Bytes) : ∀ c ∈ b64 s, isSpace c = false ∧ c ≠ 58 :=
  b64_forall (by decide) (by decide) s

lemma b64_ne_nil (h : s ≠ []) : b64 s ≠ [] := by
  have hlen := b64_length s
  have hpos := length_pos_iff.mpr h
  intro hnil
  rw [hnil] at hlen
  simp only [length_nil] at hlen
  omega

section
variable {s : Bytes} (hword : ∀ c ∈ s, isSpace c = false)
include hword

lemma trimSpace_line (hne : s ≠ []) : trimSpace (s ++ [newline]) = s := by
  have hfront : (s ++ [newline]).dropWhile isSpace = s ++ [newline] := by
    cases s with
    | nil => exact absurd rfl hne
    | cons c => rw [cons_append, dropWhile_cons_of_neg (by simp [hword c])]
  have hback : s.reverse.dropWhile isSpace = s.reverse := by
    cases hr : s.reverse with
    | nil => rfl
    | cons c =>
      have hc : c ∈ s := mem_reverse.mp (by rw [hr]; simp)
      rw [dropWhile_cons_of_neg (by simp [hword c hc])]
  rw [trimSpace, hfront, reverse_append, reverse_singleton, singleton_append,
    dropWhile_cons_of_pos (by decide), hback, reverse_reverse]

lemma scanString_word (hne : s ≠ []) {c : UInt8} (hc : isSpace c = true) (rest : Bytes) :
    scanString (s ++ c :: rest) = .ok (s, c :: rest) := by
  have hall : ∀ x ∈ s, (!isSpace x) = true := fun x hx => by simp [hword x hx]
  have hblank : (s ++ c :: rest).dropWhile isBlank = s ++ c :: rest := by
    cases s with
    | nil => exact absurd rfl hne
    | cons d => rw [cons_append, dropWhile_cons_of_neg (by simp [isBlank, hword d])]
  have hhead : ∃ d t, s ++ c :: rest = d :: t ∧ d ≠ newline := by
    cases s with
    | nil => exact absurd rfl hne
    | cons d s =>
      refine ⟨d, s ++ c :: rest, rfl, fun hd => ?_⟩
      have := hword d (by simp)
      rw [hd] at this
      cases this
  obtain ⟨d, t, hst, hd⟩ := hhead
  have htake : (s ++ c :: rest).takeWhile (!isSpace ·) = s := by
    rw [takeWhile_append_of_pos hall, takeWhile_cons_of_neg (by simp [hc]), append_nil]
  have hdrop : (s ++ c :: rest).dropWhile (!isSpace ·) = c :: rest := by
    rw [dropWhile_append_of_pos hall, dropWhile_cons_of_neg (by simp [hc])]
  rw [hst] at hblank htake hdrop
  rw [scanString, hst, hblank]
  simp only [if_neg hd, htake, hdrop]

lemma scanSpace_word (hne : s ≠ []) (rest : Bytes) :
    scanSpace (32 :: (s ++ rest)) = .ok (s ++ rest) := by
  cases s with
  | nil => exact absurd rfl hne
  | cons d =>
    have hd : isBlank d = false := by simp [isBlank, hword d]
    rw [cons_append, scanSpace, dropWhile_cons_of_neg (by simp [hd])]
    rfl

end

lemma scanLiteral_append (t s : Bytes) : scanLiteral t (t ++ s) = .ok s := by
  induction t with
  | nil => rfl
  | cons c t ih => rw [cons_append, scanLiteral, if_pos rfl, ih]

lemma scanHybrid_words {a b : Bytes} (ha : ∀ c ∈ a, isSpace c = false) (hane : a ≠ [])
    (hb : ∀ c ∈ b, isSpace c = false) (hbne : b ≠ []) :
    scanHybrid (lit "ed25519: " ++ a ++ (newline :: lit "dilithium3: ") ++ b ++ [newline]) =
      .ok (a, b) := by
  have hraw : lit "ed25519: " ++ a ++ (newline :: lit "dilithium3: ") ++ b ++ [newline] =
      lit "ed25519:" ++ 32 :: (a ++ newline :: (lit "dilithium3:" ++ 32 :: (b ++ [newline]))) := by
    simp [lit]
  have hsp : isSpace newline = true := by decide
  have hnl : ∀ rest, scanNewline (newline :: rest) = .ok rest := by
    intro rest
    rw [scanNewline, dropWhile_cons_of_neg (by decide)]
    rfl
  rw [hraw, scanHybrid, scanLiteral_append, ok_bind, scanSpace_word ha hane, ok_bind,
    scanString_word ha hane hsp, ok_bind]
  simp only
  rw [hnl, ok_bind, scanLiteral_append, ok_bind, scanSpace_word hb hbne, ok_bind,
    scanString_word hb hbne hsp, ok_bind]
  rfl

lemma no_label (h : ∀ c ∈ s, c ≠ 58) : ¬ lit "ed25519:" <+: s := by
  intro hpre
  exact h 58 (hpre.subset (by decide)) rfl

lemma classical_no_label (priv : Bytes) : ∀ c ∈ b64 priv ++ [newline], c ≠ 58 := by
  intro c hc
  rcases mem_append.mp hc with hc | hc
  · exact (b64_word priv c hc).2
  · rw [mem_singleton.mp hc]
    decide

lemma hybrid_label (t : Bytes) : lit "ed25519:" <+: lit "ed25519: " ++ t := ⟨32 :: t, rfl⟩

def hybridBody (priv qPriv : Bytes) : Bytes :=
  b64 priv ++ newline :: (lit "dilithium3: " ++ (b64 qPriv ++ [newline]))

lemma encodePrivate_some (priv qPriv : Bytes) :
    encodePrivate priv (some qPriv) = lit "ed25519: " ++ hybridBody priv qPriv := by
  simp [encodePrivate, hybridBody]

lemma edKey_ne_nil (k : EdKey) : k.val ≠ [] := by
  intro hnil
  have := k.property
  rw [hnil] at this
  cases this

lemma dilKey_ne_nil (q : DilKey) : q.val ≠ [] := by
  intro hnil
  have := q.property
  rw [hnil] at this
  cases this

lemma scanHybrid_encodePrivate (priv : EdKey) (qPriv : DilKey) :
    scanHybrid (encodePrivate priv (some qPriv.val)) = .ok (b64 priv, b64 qPriv) :=
  scanHybrid_words (fun c hc => (b64_word _ c hc).1) (b64_ne_nil (edKey_ne_nil priv))
    (fun c hc => (b64_word _ c hc).1) (b64_ne_nil (dilKey_ne_nil qPriv))

lemma decodePrivate_encodePrivate (priv : EdKey) (qPriv : Option DilKey) :
    decodePrivate (encodePrivate priv (qPriv.map Subtype.val)) =
      .ok (priv.val, qPriv.map Subtype.val) := by
  cases qPriv with
  | none =>
    have htrim := trimSpace_line (fun c hc => (b64_word priv.val c hc).1)
      (b64_ne_nil (edKey_ne_nil priv))
    show decodePrivate (b64 priv ++ [newline]) = .ok (priv.val, none)
    rw [decodePrivate, if_neg (no_label (classical_no_label _)), decodeClassical_ok, htrim]
    exact ⟨unb64_b64 _, priv.property, rfl⟩
  | some qPriv =>
    have hlabel : lit "ed25519:" <+: encodePrivate priv (some qPriv.val) := by
      rw [encodePrivate_some]
      exact hybrid_label _
    show decodePrivate (encodePrivate priv (some qPriv.val)) = .ok (priv.val, some qPriv.val)
    rw [decodePrivate, if_pos hlabel, decodeHybrid_ok]
    exact ⟨_, _, _, scanHybrid_encodePrivate priv qPriv, unb64_b64 _, priv.property, unb64_b64 _,
      qPriv.property, rfl⟩

/-! ## Parts of a key file

A crash or an error may leave the first part of a file. -/

section
variable {s r : Bytes}

lemma scanLiteral_stable {t : Bytes} (h : scanLiteral t s = .ok r) (x : Bytes) :
    scanLiteral t (s ++ x) = .ok (r ++ x) := by
  induction t generalizing s with
  | nil =>
    cases h
    rfl
  | cons c t ih =>
    cases s with
    | nil => cases h
    | cons d =>
      by_cases hcd : c = d
      · rw [scanLiteral, if_pos hcd] at h
        rw [cons_append, scanLiteral, if_pos hcd]
        exact ih h
      · rw [scanLiteral, if_neg hcd] at h
        cases h

/-- Where a scan goes on after blanks, it goes on there in a longer text too. -/
lemma dropWhile_stable {p : UInt8 → Bool} (h : s.dropWhile p ≠ []) (x : Bytes) :
    (s ++ x).dropWhile p = s.dropWhile p ++ x := by
  rw [dropWhile_append, if_neg (by simpa using h)]

lemma scanSpace_stable (h : scanSpace s = .ok r) (hr : r ≠ []) (x : Bytes) :
    scanSpace (s ++ x) = .ok (r ++ x) := by
  cases s with
  | nil =>
    cases h
    exact absurd rfl hr
  | cons =>
    simp only [scanSpace, bind_ok, ensure_ok, exists_const, pure_ok] at h
    obtain ⟨hc, hn, rfl⟩ := h
    simp only [cons_append, scanSpace, bind_ok, ensure_ok, exists_const, pure_ok]
    exact ⟨hc, hn, dropWhile_stable hr x⟩

lemma scanNewline_stable (h : scanNewline s = .ok r) (hr : r ≠ []) (x : Bytes) :
    scanNewline (s ++ x) = .ok (r ++ x) := by
  unfold scanNewline at h ⊢
  cases hd : s.dropWhile isBlank with
  | nil =>
    rw [hd] at h
    cases h
    exact absurd rfl hr
  | cons c =>
    rw [dropWhile_stable (by rw [hd]; simp) x, hd]
    rw [hd] at h
    by_cases hc : c = newline
    · simp only [if_pos hc, cons_append] at h ⊢
      cases h
      rfl
    · simp only [if_neg hc] at h
      cases h

lemma scanString_stable {a : Bytes} (h : scanString s = .ok (a, r)) (x : Bytes) :
    (r ≠ [] → scanString (s ++ x) = .ok (a, r ++ x)) ∧
      ∃ a' r', scanString (s ++ x) = .ok (a', r') ∧ a <+: a' := by
  unfold scanString at h ⊢
  cases hd : s.dropWhile isBlank with
  | nil =>
    rw [hd] at h
    cases h
  | cons c t =>
    rw [dropWhile_stable (by rw [hd]; simp) x, hd]
    rw [hd] at h
    by_cases hc : c = newline
    · simp only [if_pos hc] at h
      cases h
    · simp only [if_neg hc, cons_append, Except.ok.injEq, Prod.mk.injEq] at h ⊢
      obtain ⟨rfl, rfl⟩ := h
      constructor
      · intro hr
        constructor
        · rw [← cons_append, takeWhile_append, if_neg]
          intro hlen
          have hsum := congrArg List.length
            (@takeWhile_append_dropWhile _ (fun x => !isSpace x) (c :: t))
          rw [length_append, hlen] at hsum
          exact hr (eq_nil_of_length_eq_zero (by omega))
        · rw [← cons_append]
          exact dropWhile_stable hr x
      · refine ⟨_, _, ⟨rfl, rfl⟩, ?_⟩
        rw [← cons_append, takeWhile_append]
        split
        · rename_i hlen
          have hself := List.IsPrefix.eq_of_length ( takeWhile_prefix _) hlen
          rw [hself]
          exact prefix_append _ _
        · exact prefix_refl _

lemma scanHybrid_part {a b a' b' x : Bytes} (h : scanHybrid s = .ok (a, b))
    (h' : scanHybrid (s ++ x) = .ok (a', b')) : a = a' ∧ b <+: b' := by
  simp only [scanHybrid, bind_ok, pure_ok, Prod.exists, Prod.mk.injEq] at h h'
  obtain ⟨s1, h1, s2, h2, w1, s3, h3, s4, h4, s5, h5, s6, h6, w2, s7, h7, rfl, rfl⟩ := h
  obtain ⟨t1, g1, t2, g2, v1, t3, g3, t4, g4, t5, g5, t6, g6, v2, t7, g7, rfl, rfl⟩ := h'
  -- Something is left after every step, up to the last word.
  have hs6 : s6 ≠ [] := by
    rintro rfl
    cases h7
  have hs4 : s4 ≠ [] := by
    rintro rfl
    cases h5
  have hs3 : s3 ≠ [] := by
    rintro rfl
    cases h4
    exact hs4 rfl
  have hs2 : s2 ≠ [] := by
    rintro rfl
    cases h3
  rw [scanLiteral_stable h1 x, Except.ok.injEq] at g1
  subst g1
  rw [scanSpace_stable h2 hs2 x, Except.ok.injEq] at g2
  subst g2
  rw [(scanString_stable h3 x).1 hs3, Except.ok.injEq, Prod.mk.injEq] at g3
  obtain ⟨rfl, rfl⟩ := g3
  rw [scanNewline_stable h4 hs4 x, Except.ok.injEq] at g4
  subst g4
  rw [scanLiteral_stable h5 x, Except.ok.injEq] at g5
  subst g5
  rw [scanSpace_stable h6 hs6 x, Except.ok.injEq] at g6
  subst g6
  obtain ⟨a', r', hscan, hpre⟩ := (scanString_stable h7 x).2
  rw [hscan, Except.ok.injEq, Prod.mk.injEq] at g7
  exact ⟨rfl, g7.1 ▸ hpre⟩

end

variable {t : Bytes}

lemma unb64Quanta_part {d : Bytes} (ht : t <+: b64 s) (hd : unb64Quanta t = some d)
    (hlen : d.length = s.length) : d = s := by
  have hle := unb64Quanta_length hd
  have hfull := b64_length s
  have htl := ht.length_le
  have hall : t = b64 s := ht.eq_of_length (by omega)
  rw [hall, unb64Quanta_b64, Option.some.injEq] at hd
  exact hd.symm

lemma unb64_part {d : Bytes} (ht : t <+: b64 s) (hd : unb64 t = some d)
    (hlen : d.length = s.length) : d = s := by
  have hfilter : t.filter (fun c => c ≠ 10 ∧ c ≠ 13) = t := by
    rw [filter_eq_self]
    intro c hc
    simpa using b64_noLineEnd s c (ht.subset hc)
  rw [unb64, hfilter] at hd
  exact unb64Quanta_part ht hd hlen

lemma trimSpace_part (hword : ∀ c ∈ s, isSpace c = false) (ht : t <+: s ++ [newline]) :
    trimSpace t <+: s := by
  rcases prefix_concat_iff.mp ht with rfl | ht
  · cases s with
    | nil => exact prefix_refl _
    | cons =>
      refine ⟨[], ?_⟩
      rw [trimSpace_line hword (by simp), append_nil]
  · have hw : ∀ c ∈ t, isSpace c = false := fun c hc => hword c (ht.subset hc)
    cases t with
    | nil => exact nil_prefix
    | cons c t =>
      have hlast : (c :: t).reverse.dropWhile isSpace = (c :: t).reverse := by
        cases hr : (c :: t).reverse with
        | nil => rfl
        | cons d =>
          have hd : d ∈ c :: t := mem_reverse.mp (by rw [hr]; simp)
          rw [dropWhile_cons_of_neg (by simp [hw d hd])]
      rw [trimSpace, dropWhile_cons_of_neg (by simp [hw c]), hlast, reverse_reverse]
      exact ht

variable {priv : EdKey}

lemma decodePrivate_part {qPriv : Option DilKey}
    (ht : t <+: encodePrivate priv (qPriv.map Subtype.val)) (h : decodePrivate t = .ok (k, q)) :
    k = priv ∧ q = qPriv.map Subtype.val := by
  cases qPriv with
  | none =>
    have hlabel := no_label fun c hc => classical_no_label _ c (ht.subset hc)
    rw [decodePrivate, if_neg hlabel, decodeClassical_ok] at h
    have hpart := trimSpace_part (fun c hc => (b64_word _ c hc).1) ht
    exact ⟨unb64_part hpart h.1 (h.2.1.trans priv.property.symm), h.2.2⟩
  | some qPriv =>
    by_cases hlabel : lit "ed25519:" <+: t
    · rw [decodePrivate, if_pos hlabel, decodeHybrid_ok] at h
      obtain ⟨a, b, d, hscan, ha, hk, hb, hd, rfl⟩ := h
      obtain ⟨x, hx⟩ := ht
      have hfull : scanHybrid (t ++ x) = .ok (b64 priv, b64 qPriv) := by
        rw [hx]
        exact scanHybrid_encodePrivate priv qPriv
      obtain ⟨rfl, hpart⟩ := scanHybrid_part hscan hfull
      refine ⟨unb64_part (prefix_refl _) ha (hk.trans priv.property.symm), ?_⟩
      rw [unb64_part hpart hb (hd.trans qPriv.property.symm)]
      rfl
    · -- The part ends within the first label, so it is too short for a key.
      have hshort : t.length < 8 := by
        by_contra hlen
        have hle : (lit "ed25519:").length ≤ t.length := by
          show 8 ≤ t.length
          omega
        have hfull : lit "ed25519:" <+: encodePrivate priv (some qPriv.val) := by
          rw [encodePrivate_some]
          exact hybrid_label _
        exact hlabel (prefix_of_prefix_length_le hfull ht hle)
      rw [decodePrivate, if_neg hlabel, decodeClassical_ok] at h
      have hle := unb64Quanta_length h.1
      have hfilter := length_filter_le (fun c => decide (c ≠ 10 ∧ c ≠ 13)) (trimSpace t)
      have htrim : (trimSpace t).length ≤ t.length := by
        have hfront := (dropWhile_suffix isSpace (l := t)).length_le
        have hback := (dropWhile_suffix isSpace
          (l := (t.dropWhile isSpace).reverse)).length_le
        rw [length_reverse] at hback
        rw [trimSpace, length_reverse]
        omega
      have hk := h.2.1
      unfold edPrivateKeySize at hk
      omega

/-! ## What a reader of the directory can recover -/

def keyText (raw : Bytes) : Bytes :=
  if lit "ed25519: " <+: raw then raw.drop 9 else raw

def recover (raw : Bytes) : Option Bytes :=
  match unb64Quanta ((keyText raw).take 88) with
  | some k => if k.length = edPrivateKeySize then some k else none
  | none => none

lemma recover_some :
    recover raw = some k ↔
      unb64Quanta ((keyText raw).take 88) = some k ∧ k.length = edPrivateKeySize := by
  unfold recover
  split
  · rename_i k' hk
    rw [hk]
    by_cases hlen : k'.length = edPrivateKeySize
    · rw [if_pos hlen]
      constructor
      · rintro ⟨⟩
        exact ⟨rfl, hlen⟩
      · exact fun h => h.1
    · rw [if_neg hlen]
      constructor
      · rintro ⟨⟩
      · rintro ⟨⟨⟩, h⟩
        exact absurd h hlen
  · rename_i hnone
    simp [hnone]

/-- A text that starts with a part of a key's base64 gives that key or none. -/
lemma unb64Quanta_key {rest : Bytes} (ht : t <+: b64 priv.val ++ rest)
    (h : unb64Quanta (t.take 88) = some k) (hk : k.length = edPrivateKeySize) : k = priv := by
  have hpart : t.take 88 <+: b64 priv.val := by
    have hlen : (t.take 88).length ≤ (b64 priv.val).length := by
      rw [b64_length, priv.property, length_take]
      exact Nat.min_le_left _ _
    exact prefix_of_prefix_length_le (( take_prefix _ _).trans ht)
      (prefix_append _ _) hlen
  exact unb64Quanta_part hpart h (hk.trans priv.property.symm)

lemma recover_part {qPriv : Option DilKey} (ht : t <+: encodePrivate priv (qPriv.map Subtype.val))
    (h : recover t = some k) : k = priv := by
  obtain ⟨hdec, hk⟩ := recover_some.mp h
  cases qPriv with
  | none =>
    have hlabel : ¬ lit "ed25519: " <+: t := by
      intro hpre
      have hcolon : (58 : UInt8) ∈ t := hpre.subset (by decide)
      exact classical_no_label _ 58 (ht.subset hcolon) rfl
    rw [keyText, if_neg hlabel] at hdec
    exact unb64Quanta_key ht hdec hk
  | some qPriv =>
    have ht : t <+: lit "ed25519: " ++ hybridBody priv qPriv := by
      rw [← encodePrivate_some]
      exact ht
    by_cases hlabel : lit "ed25519: " <+: t
    · obtain ⟨u, rfl⟩ := hlabel
      have hu : u <+: hybridBody priv qPriv := (prefix_append_right_inj _).mp ht
      have htext : keyText (lit "ed25519: " ++ u) = u := by
        rw [keyText, if_pos (prefix_append _ _)]
        exact drop_left' rfl
      rw [htext] at hdec
      exact unb64Quanta_key hu hdec hk
    · have hshort : t.length < 9 := by
        by_contra hlen
        have hle : (lit "ed25519: ").length ≤ t.length := by
          show 9 ≤ t.length
          omega
        exact hlabel (prefix_of_prefix_length_le (prefix_append _ _) ht hle)
      rw [keyText, if_neg hlabel] at hdec
      have hle := unb64Quanta_length hdec
      rw [length_take] at hle
      unfold edPrivateKeySize at hk
      omega

end Stele.Keys
