import Stele.Keys.Runs

/-!
# What every state of a signer has in common

The invariant behind the results on verifiability. It speaks about contents, not about places: every
document on disk is a chain that verifies (`Good`), every text that reads as a key reads as one of
the key pairs that were made, and the objects of one label on the token belong together (`Core`).
The signer's key, as far as it can still sign, is the key of the last certificate (`Signs`).

The parameters of a run: `group` is the group that verifies the chain; `quant` says that every epoch
has a quantum key, `clocked` that no certificate is younger than the clock, `crashes` that the
process may die in the middle of a call.
-/

namespace Stele.Keys

open Lib List

open Prog

lemma decodePrivate_lengths {raw k : Bytes} {q : Option Bytes}
    (h : decodePrivate raw = .ok (k, q)) :
    ∃ (e : EdKey) (d : Option DilKey), k = e ∧ q = d.map Subtype.val := by
  unfold decodePrivate at h
  split at h
  · obtain ⟨a, b, d, -, -, hk, -, hd, rfl⟩ := decodeHybrid_ok.mp h
    exact ⟨⟨k, hk⟩, some ⟨d, hd⟩, rfl, rfl⟩
  · obtain ⟨-, hk, rfl⟩ := decodeClassical_ok.mp h
    exact ⟨⟨k, hk⟩, none, rfl, rfl⟩

section
variable (C : Crypto) (group : Option Group) (quant clocked : Prop)

/-- A chain that verifies under its genesis key, made of key pairs that were made, which comes back
from its JSON form as it is. -/
structure Good (w : World) (ch : Chain) : Prop where
  accepted : ∃ genesis rest, ch.Accepted C genesis.publicKey group genesis rest
  made : ∀ c, some c ∈ ch.certs → (c.publicKey, c.quantumPublicKey) ∈ w.made
  crossed : ∀ c, some c ∈ ch.certs → c.crossed = c
  quant : quant → ∀ c, some c ∈ ch.certs → c.quantumPublicKey ≠ []
  started : clocked → ∀ c, some c ∈ ch.certs → c.startedAt ≤ w.clock

def Fits (w : World) : Content → Prop
  | .text b => ∀ k q, decodePrivate b = .ok (k, q) → (C.edPublic k, quantumOf C q) ∈ w.made
  | .doc j => ∃ ch, j = Chain.toJson ch ∧ Good C group quant clocked w ch
  | .torn => True

structure Paired (w : World) : Prop where
  privs : ∀ h o, w.object h = some o → o.cls = .privateKey → o.value.length = edPrivateKeySize
  pairs : ∀ h h' o o', w.object h = some o → w.object h' = some o' → o.label = o'.label →
    o.cls = .privateKey → o'.cls = .publicKey → o'.value = C.edPublic o.value

structure Core (w : World) : Prop where
  fresh : (w.made.map Prod.fst).Nodup
  files : ∀ p c, w.files p = some c → Fits C group quant clocked w c
  privs : ∀ h o, w.object h = some o → o.cls = .privateKey → o.value.length = edPrivateKeySize
  pairs : ∀ h h' o o', w.object h = some o → w.object h' = some o' → o.label = o'.label →
    o.cls = .privateKey → o'.cls = .publicKey → o'.value = C.edPublic o.value
  tokens : ∀ h o, w.object h = some o → o.cls = .publicKey → (o.value, []) ∈ w.made

def Signs (w : World) : LiveKey → RotationCert → Prop
  | .file k, c => k.priv ≠ none → ∃ (priv : EdKey) (qPriv : Option DilKey),
    k.priv = some priv.val ∧ k.qPriv = qPriv.map Subtype.val ∧
    k.qPub = (qPriv.map Subtype.val).map C.dilPublic ∧ c.publicKey = C.edPublic priv ∧
    c.quantumPublicKey = quantumOf C (qPriv.map Subtype.val)
  | .hsm k, c => k.privObj < w.objects.length ∧ ∀ o, w.object k.privObj = some o →
    o.cls = .privateKey → ∃ priv : EdKey, o.value = priv ∧ c.publicKey = C.edPublic priv ∧
      c.quantumPublicKey = []

structure CoreSigner (w : World) (s : Signer) : Prop where
  good : Good C group quant clocked w s.chain
  signs : ∀ active last, s.active = some active → s.chain.certs.getLast? = some (some last) →
    Signs C w active last

end

/-! ## The effects keep it -/

section
variable {C : Crypto} {group : Option Group} {quant clocked : Prop} {w w' : World} {ch : Chain}

section

variable (h : Good C group quant clocked w ch)

include h

lemma Good.mono (hmade : ∀ x ∈ w.made, x ∈ w'.made)
    (hclock : clocked → w.clock ≤ w'.clock) : Good C group quant clocked w' ch :=
  { h with
    made := fun c hc => hmade _ (h.made c hc)
    started := fun hcl c hc => (h.started hcl c hc).trans (hclock hcl) }

lemma Good.of_certs {ch' : Chain}
    (heq : ch'.certs = ch.certs) : Good C group quant clocked w ch' := by
  obtain ⟨genesis, rest, hacc⟩ := h.accepted
  exact {
    accepted := ⟨genesis, rest, { hacc with certs := heq.trans hacc.certs }⟩
    made := fun c hc => h.made c (heq ▸ hc)
    crossed := fun c hc => h.crossed c (heq ▸ hc)
    quant := fun hq c hc => h.quant hq c (heq ▸ hc)
    started := fun hcl c hc => h.started hcl c (heq ▸ hc) }

lemma Good.read : ch.crossed.certs = ch.certs := by
  have hid : ∀ o ∈ ch.certs, Option.map RotationCert.crossed o = o := by
    rintro (_ | c) hc
    · rfl
    · rw [Option.map_some, h.crossed c hc]
  exact (map_congr_left hid).trans (map_id' _)

end

variable {c : Content}

lemma Fits.mono (h : Fits C group quant clocked w c) (hmade : ∀ x ∈ w.made, x ∈ w'.made)
    (hclock : clocked → w.clock ≤ w'.clock) : Fits C group quant clocked w' c := by
  cases c with
  | text => exact fun k q hdec => hmade _ (h k q hdec)
  | doc =>
    obtain ⟨ch, hj, hgood⟩ := h
    exact ⟨ch, hj, hgood.mono hmade hclock⟩
  | torn => trivial

lemma Good.frame (h : Good C group quant clocked w ch) (hmade : w'.made = w.made)
    (hclock : w'.clock = w.clock) : Good C group quant clocked w' ch :=
  h.mono (fun _ hx => hmade ▸ hx) fun _ => hclock.ge

lemma Fits.frame (h : Fits C group quant clocked w c) (hmade : w'.made = w.made)
    (hclock : w'.clock = w.clock) : Fits C group quant clocked w' c :=
  h.mono (fun _ hx => hmade ▸ hx) fun _ => hclock.ge

lemma fits_empty : Fits C group quant clocked w (.text []) := by
  intro k q hdec
  have hnil : decodePrivate [] = decodeClassical [] := by rw [decodePrivate, if_neg (by decide)]
  rw [hnil, decodeClassical_ok] at hdec
  obtain ⟨hk, hlen, -⟩ := hdec
  cases hk
  cases hlen

lemma Fits.part {j : Json} (h : Fits C group quant clocked w (.doc j))
    (hc : (Content.doc j).Part c) : Fits C group quant clocked w c := by
  cases hc with
  | all => exact h
  | cut n =>
    show Fits C group quant clocked w (if n = 0 then .text [] else .torn)
    by_cases hn : n = 0
    · rw [if_pos hn]
      exact fits_empty
    · rw [if_neg hn]
      trivial

lemma fits_key {priv : EdKey} {qPriv : Option DilKey}
    (hmade : (C.edPublic priv, quantumOf C (qPriv.map Subtype.val)) ∈ w.made)
    (hc : (keyContent priv qPriv).Part c) : Fits C group quant clocked w c := by
  obtain ⟨t, rfl, ht⟩ := hc.text
  intro k q hdec
  obtain ⟨rfl, rfl⟩ := decodePrivate_part ht hdec
  exact hmade

lemma addPair_object {label pub : Bytes} {priv : Bytes} {o1 o2 : Option Object}
    (ho1 : Object.OrGone ⟨label, .publicKey, pub⟩ o1)
    (ho2 : Object.OrGone ⟨label, .privateKey, priv⟩ o2) {x : Nat} {o : Object}
    (hx : (w.addPair pub o1 o2).object x = some o) :
    w.object x = some o ∨ o = ⟨label, .publicKey, pub⟩ ∨ o = ⟨label, .privateKey, priv⟩ := by
  by_cases hlt : x < w.objects.length
  · rw [addPair_object_old hlt] at hx
    exact .inl hx
  · obtain ⟨n, rfl⟩ := Nat.exists_eq_add_of_le (Nat.le_of_not_lt hlt)
    match n with
    | 0 =>
      rw [Nat.add_zero, addPair_object_pub] at hx
      rcases ho1 with rfl | rfl
      · exact .inr (.inl (Option.some.inj hx).symm)
      · cases hx
    | 1 =>
      rw [addPair_object_priv] at hx
      rcases ho2 with rfl | rfl
      · exact .inr (.inr (Option.some.inj hx).symm)
      · cases hx
    | n + 2 => simp [World.object, World.addPair] at hx

namespace Paired

variable (h : Paired C w)
include h

lemma frame (hobj : w'.objects = w.objects) : Paired C w' := by
  have hsame : ∀ x, w'.object x = w.object x := fun x => by rw [World.object, World.object, hobj]
  exact {
    privs := fun x o hx => h.privs x o (hsame x ▸ hx)
    pairs := fun x x' o o' hx hx' => h.pairs x x' o o' (hsame x ▸ hx) (hsame x' ▸ hx') }

lemma lost {hs : List Nat} (hlost : w.Lost hs w') : Paired C w' where
  privs x o hx := h.privs x o (hlost.was hx)
  pairs x x' o o' hx hx' := h.pairs x x' o o' (hlost.was hx) (hlost.was hx')

lemma addPair {label : Bytes} {priv : EdKey} {o1 o2 : Option Object} (hlabel : label ∉ w.labels)
    (ho1 : Object.OrGone ⟨label, .publicKey, C.edPublic priv⟩ o1)
    (ho2 : Object.OrGone ⟨label, .privateKey, priv⟩ o2) :
    Paired C (w.addPair (C.edPublic priv) o1 o2) where
  privs x o hx hcls := by
    rcases addPair_object ho1 ho2 hx with hold | rfl | rfl
    · exact h.privs x o hold hcls
    · cases hcls
    · exact priv.property
  pairs x x' o o' hx hx' hlab hcls hcls' := by
    rcases addPair_object ho1 ho2 hx with hold | rfl | rfl
    · rcases addPair_object ho1 ho2 hx' with hold' | rfl | rfl
      · exact h.pairs x x' o o' hold hold' hlab hcls hcls'
      · exact absurd (w.mem_labels hold) (hlab ▸ hlabel)
      · cases hcls'
    · cases hcls
    · rcases addPair_object ho1 ho2 hx' with hold' | rfl | rfl
      · exact absurd (w.mem_labels hold') (hlab ▸ hlabel)
      · rfl
      · cases hcls'

end Paired

namespace Core

variable (h : Core C group quant clocked w)
include h

lemma paired : Paired C w := ⟨h.privs, h.pairs⟩

lemma put {c : Content} (hc : Fits C group quant clocked w c) (p : Bytes) :
    Core C group quant clocked (w.put p c) :=
  { h with
    files := fun p' c' hc' => by
      by_cases hp : p' = p
      · subst hp
        rw [World.put_files_self, Option.some.injEq] at hc'
        subst hc'
        exact hc.frame rfl rfl
      · rw [World.put_files_ne _ hp] at hc'
        exact (h.files p' c' hc').frame rfl rfl }

lemma drop (p : Bytes) : Core C group quant clocked (w.drop p) :=
  { h with
    files := fun p' c' hc' => by
      by_cases hp : p' = p
      · subst hp
        rw [World.drop_files_self] at hc'
        cases hc'
      · rw [World.drop_files_ne _ hp] at hc'
        exact (h.files p' c' hc').frame rfl rfl }

lemma make {pub : Bytes} (hpub : pub ∉ w.made.map Prod.fst) (qpub : Bytes) :
    Core C group quant clocked (w.make pub qpub) :=
  { h with
    fresh := nodup_cons.mpr ⟨hpub, h.fresh⟩
    files := fun p c hc =>
      (h.files p c hc).mono (fun _ hx => mem_cons_of_mem _ hx) fun _ => le_refl _
    tokens := fun x o hx hcls => mem_cons_of_mem _ (h.tokens x o hx hcls) }

lemma tick {now : Int} (hnow : clocked → w.clock ≤ now) :
    Core C group quant clocked (w.tick now) :=
  { h with files := fun p c hc => (h.files p c hc).mono (fun _ hx => hx) hnow }

lemma publish {ch : Chain} (hgood : Good C group quant clocked w ch) (dir : Bytes) :
    Core C group quant clocked (w.publish dir ch) := by
  have hfits : Fits C group quant clocked (w.drop (tmpPath dir)) (.doc ch.toJson) :=
    ⟨ch, rfl, hgood.frame rfl rfl⟩
  have hput := (h.drop (tmpPath dir)).put hfits (chainPath dir)
  exact {
    fresh := hput.fresh
    files := fun p c hc => (hput.files p c hc).frame rfl rfl
    privs := hput.privs
    pairs := hput.pairs
    tokens := hput.tokens }

lemma lost {hs : List Nat} (hlost : w.Lost hs w') : Core C group quant clocked w' := by
  obtain ⟨hprivs, hpairs⟩ := h.paired.lost hlost
  have htokens := fun x o hx => h.tokens x o (hlost.was hx)
  obtain ⟨objs, rfl⟩ := hlost.rest
  exact ⟨h.fresh, fun p c hc => (h.files p c hc).frame rfl rfl, hprivs, hpairs, htokens⟩

end Core

lemma Core.addPair (h : Core C group quant clocked w) {label : Bytes} {priv : EdKey}
    {o1 o2 : Option Object} (hpub : C.edPublic priv ∉ w.made.map Prod.fst)
    (hlabel : label ∉ w.labels)
    (ho1 : Object.OrGone ⟨label, .publicKey, C.edPublic priv⟩ o1)
    (ho2 : Object.OrGone ⟨label, .privateKey, priv⟩ o2) :
    Core C group quant clocked (w.addPair (C.edPublic priv) o1 o2) where
  fresh := (h.make hpub []).fresh
  files p c hc := ((h.make hpub []).files p c hc).frame rfl rfl
  privs := (h.paired.addPair hlabel ho1 ho2).privs
  pairs := (h.paired.addPair hlabel ho1 ho2).pairs
  tokens x o hx hcls := by
    rcases addPair_object ho1 ho2 hx with hold | rfl | rfl
    · exact mem_cons_of_mem _ (h.tokens x o hold hcls)
    · exact mem_cons_self ..
    · cases hcls

end

structure Later (clocked : Prop) (w w' : World) : Prop where
  made : ∀ x ∈ w.made, x ∈ w'.made
  length : w.objects.length ≤ w'.objects.length
  object : ∀ x o, x < w.objects.length → w'.object x = some o → w.object x = some o
  clock : clocked → w.clock ≤ w'.clock

namespace Later

variable {clocked : Prop} {w w' w'' : World}

lemma refl (w : World) : Later clocked w w :=
  ⟨fun _ h => h, le_refl _, fun _ _ _ h => h, fun _ => le_refl _⟩

lemma trans (h : Later clocked w w') (h' : Later clocked w' w'') : Later clocked w w'' where
  made x hx := h'.made x (h.made x hx)
  length := h.length.trans h'.length
  object x o hx ho := h.object x o hx (h'.object x o (lt_of_lt_of_le hx h.length) ho)
  clock hcl := (h.clock hcl).trans (h'.clock hcl)

lemma of_files (hobj : w'.objects = w.objects) (hmade : w'.made = w.made)
    (hclock : w'.clock = w.clock) : Later clocked w w' where
  made _ hx := hmade ▸ hx
  length := by rw [hobj]
  object x o _ ho := by
    rw [World.object, hobj] at ho
    exact ho
  clock _ := hclock.ge

lemma make (w : World) (pub qpub : Bytes) : Later clocked w (w.make pub qpub) :=
  ⟨fun _ hx => mem_cons_of_mem _ hx, le_refl _, fun _ _ _ h => h, fun _ => le_refl _⟩

lemma publish (w : World) (dir : Bytes) (ch : Chain) : Later clocked w (w.publish dir ch) :=
  of_files rfl rfl rfl

lemma tick {now : Int} (hnow : clocked → w.clock ≤ now) : Later clocked w (w.tick now) :=
  ⟨fun _ hx => hx, le_refl _, fun _ _ _ h => h, hnow⟩

lemma lost {hs : List Nat} (h : w.Lost hs w') : Later clocked w w' where
  made x hx := by
    obtain ⟨objs, rfl⟩ := h.rest
    exact hx
  length := h.length.ge
  object x o _ ho := h.was ho
  clock _ := by
    obtain ⟨objs, rfl⟩ := h.rest
    exact le_refl _

lemma addPair (w : World) (pub : Bytes) (o1 o2 : Option Object) :
    Later clocked w (w.addPair pub o1 o2) where
  made _ hx := mem_cons_of_mem _ hx
  length := by simp [World.addPair]
  object x o hx ho := by
    rw [addPair_object_old hx] at ho
    exact ho
  clock _ := le_refl _

end Later

/-! ## The programs keep it -/

def Harmless (b : Bytes) : Prop := ∀ n, n ≤ b.length → (decodePrivate (b.take n)).isOk = false

instance (b : Bytes) : Decidable (Harmless b) := Nat.decidableBallLE _ _

lemma Harmless.part {b t : Bytes} (h : Harmless b) (ht : t <+: b) (k : Bytes)
    (q : Option Bytes) : decodePrivate t ≠ .ok (k, q) := by
  intro hdec
  have hno := h t.length ht.length_le
  rw [← prefix_iff_eq_take.mp ht, hdec] at hno
  cases hno

/-- What the results ask of the environment: new keys and labels are new, the clock does not go back
when that is asked for, and the noise over a destroyed key does not read as a key, or is never
left behind. -/
structure Env (C : Crypto) (ok : Op → World → Choice → Prop) (clocked crashes : Prop) : Prop where
  edKey : ∀ w r, ok .edKey w r → C.edPublic r.edKey ∉ w.made.map Prod.fst
  keyPair : ∀ label w r, ok (.generateKeyPair label) w r →
    C.edPublic r.edKey ∉ w.made.map Prod.fst ∧ label ∉ w.labels
  clock : clocked → ∀ w r, ok .unixNano w r → w.clock ≤ r.now
  noise : (∀ path b, Noise ok path b → Harmless b) ∨ ¬ crashes ∧ ∀ path, ¬ Fails ok (.remove path)

variable {ok : Op → World → Choice → Prop} {key : LiveKey} {s : Signer}

section
variable {C : Crypto} {group : Option Group} {quant clocked crashes : Prop} {w w' : World}

lemma Good.later {ch : Chain} (h : Good C group quant clocked w ch) (hl : Later clocked w w') :
    Good C group quant clocked w' ch :=
  h.mono hl.made hl.clock

lemma Signs.later {c : RotationCert} (h : Signs C w key c) (hl : Later clocked w w') :
    Signs C w' key c := by
  cases key with
  | file => exact h
  | hsm => exact ⟨lt_of_lt_of_le h.1 hl.length, fun o ho => h.2 o (hl.object _ o h.1 ho)⟩

lemma CoreSigner.later (h : CoreSigner C group quant clocked w s) (hl : Later clocked w w') :
    CoreSigner C group quant clocked w' s :=
  ⟨h.good.later hl, fun active last ha hlast => (h.signs active last ha hlast).later hl⟩

structure NewActive (C : Crypto) (w : World) (key : LiveKey) : Prop where
  signs : ∀ c : RotationCert, c.publicKey = key.pub →
    c.quantumPublicKey = key.quantumPublic.getD [] → Signs C w key c
  made : (key.pub, key.quantumPublic.getD []) ∈ w.made
  length : key.pub.length = edPublicKeySize
  quantum_length : ∀ q, key.quantumPublic = some q → q.length = quantumPublicKeySize

lemma NewActive.later (h : NewActive C w key) (hl : Later clocked w w') : NewActive C w' key :=
  { h with
    signs := fun c hpub hq => (h.signs c hpub hq).later hl
    made := hl.made _ h.made }

lemma newActive_fileKey (hC : Correct C) {path : Bytes} {priv : EdKey} {qPriv : Option DilKey}
    (hmade : (C.edPublic priv, quantumOf C (qPriv.map Subtype.val)) ∈ w.made) :
    NewActive C w (fileKey C path priv (qPriv.map Subtype.val)) where
  signs c hpub hq _ := ⟨priv, qPriv, rfl, rfl, rfl, hpub, hq⟩
  made := hmade
  length := hC.edPublic_length priv
  quantum_length q hq := by
    cases qPriv with
    | none => cases hq
    | some d =>
      cases hq
      exact hC.dilPublic_length d

variable {w1 : World}

lemma GenerateDone.newActive (hC : Correct C) {store : KeyStore}
    (hdone : GenerateDone C ok store w (.ok key) w1) : NewActive C w1 key := by
  cases store with
  | file =>
    cases hdone with
    | done hnew =>
      refine newActive_fileKey hC ?_
      rw [hnew.world]
      exact mem_cons_self ..
  | pkcs11 =>
    cases hdone with
    | done hnew hpub =>
      rename_i label priv pubKey der
      obtain ⟨-, -, o1, o2, -, ho2, rfl⟩ := hnew
      rw [decodePoint_point (hC.edPublic_length priv), Except.ok.injEq] at hpub
      subst hpub
      refine ⟨fun c hcpub hcq => ⟨by simp [World.addPair], fun o ho _ => ⟨priv, ?_, hcpub, hcq⟩⟩,
        mem_cons_self .., hC.edPublic_length priv, nofun⟩
      rw [addPair_object_priv] at ho
      subst ho
      rcases ho2 with heq | hnone
      · cases heq
        rfl
      · cases hnone

/-! ### What comes later -/

lemma GenerateDone.later {store : KeyStore} {res : Res LiveKey}
    (hdone : GenerateDone C ok store w res w1) : Later clocked w w1 := by
  cases store with
  | file dir hybrid =>
    have hnewKey : ∀ {priv : EdKey} {qPriv : Option DilKey} {path : Bytes} {w2 : World},
        NewKey C ok dir hybrid w priv qPriv path w2 → Later clocked w w2 := by
      rintro priv qPriv path w2 ⟨-, -, -, rfl⟩
      exact .make w _ _
    cases hdone with
    | noKey => exact .refl w
    | noQuantum _ _ => exact .make w _ _
    | notWritten hnew hdone =>
      cases hdone with
      | refused => exact hnewKey hnew
      | failed => exact (hnewKey hnew).trans (.of_files rfl rfl rfl)
    | done hnew => exact (hnewKey hnew).trans (.of_files rfl rfl rfl)
  | pkcs11 =>
    cases hdone with
    | noPair => exact .refl w
    | unread hnew =>
      obtain ⟨-, -, o1, o2, -, -, rfl⟩ := hnew
      exact .addPair w _ _ _
    | done hnew _ =>
      obtain ⟨-, -, o1, o2, -, -, rfl⟩ := hnew
      exact .addPair w _ _ _

lemma DestroyDone.later {res : LiveKey × Option Err} (hdone : DestroyDone ok key w res w1) :
    Later clocked w w1 := by
  cases key with
  | file k =>
    obtain ⟨key', err⟩ := res
    obtain ⟨-, hdone⟩ := hdone
    change EraseDone ok k.path w err w1 at hdone
    cases hdone with
    | skipped => exact .refl w
    | kept => exact .refl w
    | left => exact .of_files rfl rfl rfl
    | removed => exact .of_files rfl rfl rfl
  | hsm => exact .lost hdone.2.1

lemma ChainDone.later {dir : Bytes} {ch : Chain} {e : Err}
    (hdone : ChainDone ok dir ch w (some e) w1) : Later clocked w w1 := by
  cases hdone with
  | unwritten hdone =>
    cases hdone with
    | refused => exact .refl w
    | failed => exact .of_files rfl rfl rfl
  | unrenamed => exact .of_files rfl rfl rfl

lemma CertifyFailed.later (hclock : clocked → ∀ w r, ok .unixNano w r → w.clock ≤ r.now)
    (hfail : CertifyFailed ok key w w1) : Later clocked w w1 := by
  obtain ⟨r, hr, rfl | ⟨res, hdone⟩⟩ := hfail
  · exact .tick fun hcl => hclock hcl w r hr
  · exact (Later.tick fun hcl => hclock hcl w r hr).trans hdone.later

lemma Prepared.later {prevActive newActive : LiveKey} {prevCert cert : RotationCert} {now : Int}
    (hclock : clocked → ∀ w r, ok .unixNano w r → w.clock ≤ r.now)
    (hprep : Prepared C ok s w prevActive newActive prevCert cert now w1) :
    Later clocked w (w1.tick now) := by
  obtain ⟨r, hr, rfl⟩ := hprep.clock
  exact hprep.gen.later.trans (.tick fun hcl => hclock hcl w1 r hr)

lemma RotateDone.later {res : Signer × Res RotationCert}
    (hclock : clocked → ∀ w r, ok .unixNano w r → w.clock ≤ r.now)
    (hdone : RotateDone C ok s w res w1) : Later clocked w w1 := by
  cases hdone with
  | refused => exact .refl w
  | noKey hgen => exact hgen.later
  | nilCert _ hgen => exact hgen.later
  | unsigned hgen hfail => exact hgen.later.trans (hfail.later hclock)
  | unpublished hprep hwrite hdone =>
    exact ((hprep.later hclock).trans hwrite.later).trans hdone.later
  | kept hprep hdone => exact ((hprep.later hclock).trans (.publish _ _ _)).trans hdone.later
  | rotated hprep hdone => exact ((hprep.later hclock).trans (.publish _ _ _)).trans hdone.later

end

/-- **A predicate on worlds that the calls keep**: when a key is made and its file written, when a
key is destroyed, and when a chain that satisfies `G` is written. A part of the noise over a key is
left behind in a crash, or when the file cannot be removed. -/
structure Stable (C : Crypto) (ok : Op → World → Choice → Prop) (crashes : Prop)
    (I : World → Prop) (G : World → Chain → Prop) : Prop where
  edKey : ∀ w r qpub, I w → ok .edKey w r → I (w.make (C.edPublic r.edKey) qpub)
  keyPair : ∀ w r label o1 o2, I w → ok (.generateKeyPair label) w r →
    Object.OrGone ⟨label, .publicKey, C.edPublic r.edKey⟩ o1 →
    Object.OrGone ⟨label, .privateKey, r.edKey⟩ o2 → I (w.addPair (C.edPublic r.edKey) o1 o2)
  lost : ∀ w hs w', I w → w.Lost hs w' → I w'
  tick : ∀ w r, I w → ok .unixNano w r → I (w.tick r.now)
  key : ∀ w p (priv : EdKey) (qPriv : Option DilKey) c, I w →
    (C.edPublic priv, quantumOf C (qPriv.map Subtype.val)) ∈ w.made →
    (keyContent priv qPriv).Part c → I (w.put p c)
  noise : ∀ w p b c, crashes ∨ Fails ok (.remove p) → I w → Noise ok p b →
    (Content.text b).Part c → I (w.put p c)
  drop : ∀ w p, I w → I (w.drop p)
  doc : ∀ w p ch c, I w → G w ch → (Content.doc ch.toJson).Part c → I (w.put p c)
  publish : ∀ w dir ch, I w → G w ch → I (w.publish dir ch)

namespace Stable

variable {C : Crypto} {crashes : Prop} {I : World → Prop} {G : World → Chain → Prop}
  (hI : Stable C ok crashes I G) {w w1 : World} (h : I w)
include hI h

variable {dir : Bytes}

lemma newKey {path : Bytes} {hybrid : Bool} {priv : EdKey} {qPriv : Option DilKey}
    (hnew : NewKey C ok dir hybrid w priv qPriv path w1) :
    I w1 ∧ (C.edPublic priv, quantumOf C (qPriv.map Subtype.val)) ∈ w1.made := by
  obtain ⟨⟨r, hr, rfl⟩, -, -, rfl⟩ := hnew
  exact ⟨hI.edKey w r _ h hr, mem_cons_self ..⟩

lemma newPair {keyPrefix label : Bytes} {priv : EdKey}
    (hnew : NewPair C ok keyPrefix w label priv w1) : I w1 := by
  obtain ⟨-, ⟨r, hr, rfl⟩, o1, o2, ho1, ho2, rfl⟩ := hnew
  exact hI.keyPair w r label o1 o2 h hr ho1 ho2

variable {store : KeyStore} {op : Op}

lemma generate_stop (hstop : GenerateStop C ok store w op w1) : I w1 := by
  cases store with
  | file =>
    cases hstop with
    | start => exact h
    | made hop hr => exact hI.edKey w _ [] h hr
    | writing hnew hstop =>
      obtain ⟨hkey, hmade⟩ := hI.newKey h hnew
      cases hstop with
      | opening => exact hkey
      | writing hc => exact hI.key _ _ _ _ _ hkey hmade hc
  | pkcs11 =>
    rcases hstop with rfl | ⟨label, priv, hnew⟩
    · exact h
    · exact hI.newPair h hnew

lemma generate_done {res : Res LiveKey} (hdone : GenerateDone C ok store w res w1) : I w1 := by
  cases store with
  | file =>
    cases hdone with
    | noKey => exact h
    | noQuantum hr _ => exact hI.edKey w _ [] h hr
    | notWritten hnew hdone =>
      obtain ⟨hkey, hmade⟩ := hI.newKey h hnew
      cases hdone with
      | refused => exact hkey
      | failed hc _ => exact hI.key _ _ _ _ _ hkey hmade hc
    | done hnew =>
      obtain ⟨hkey, hmade⟩ := hI.newKey h hnew
      exact hI.key _ _ _ _ _ hkey hmade .all
  | pkcs11 =>
    cases hdone with
    | noPair => exact h
    | unread hnew => exact hI.newPair h hnew
    | done hnew => exact hI.newPair h hnew

lemma destroy_stop (hstop : DestroyStop ok key w op w1) (hcrash : crashes) : I w1 := by
  cases key with
  | file =>
    cases hstop with
    | before => exact h
    | kept => exact h
    | during hb hc => exact hI.noise w _ _ _ (.inl hcrash) h hb hc
  | hsm => exact hI.lost w _ _ h hstop

lemma destroy_done {res : LiveKey × Option Err} (hdone : DestroyDone ok key w res w1) : I w1 := by
  cases key with
  | file k =>
    obtain ⟨key', err⟩ := res
    obtain ⟨-, hdone⟩ := hdone
    change EraseDone ok k.path w err w1 at hdone
    cases hdone with
    | skipped => exact h
    | kept => exact h
    | left hfails hb hc => exact hI.noise w _ _ _ (.inr hfails) h hb hc
    | removed => exact hI.drop w _ h
  | hsm => exact hI.lost w _ _ h hdone.2.1

lemma chain_stop {ch : Chain} (hgood : G w ch) (hstop : ChainStop dir ch w op w1) : I w1 := by
  cases hstop with
  | writing hstop =>
    cases hstop with
    | opening => exact h
    | writing hc => exact hI.doc w _ ch _ h hgood hc
  | moving => exact hI.doc w _ ch _ h hgood .all

lemma chain_failed {ch : Chain} {e : Err} (hgood : G w ch)
    (hdone : ChainDone ok dir ch w (some e) w1) : I w1 := by
  cases hdone with
  | unwritten hdone =>
    cases hdone with
    | refused => exact h
    | failed hc _ => exact hI.doc w _ ch _ h hgood hc
  | unrenamed _ => exact hI.doc w _ ch _ h hgood .all

lemma certify_stop (hstop : CertifyStop ok key w op w1) (hcrash : crashes) : I w1 := by
  cases hstop with
  | clock => exact h
  | signing hr => exact hI.tick w _ h hr
  | discarding hr hstop => exact hI.destroy_stop (hI.tick w _ h hr) hstop hcrash

lemma certify_failed (hfail : CertifyFailed ok key w w1) : I w1 := by
  obtain ⟨r, hr, rfl | ⟨res, hdone⟩⟩ := hfail
  · exact hI.tick w r h hr
  · exact hI.destroy_done (hI.tick w r h hr) hdone

/-- **A step of the world after the key is made**: `Generate`, then the clock. -/
theorem prepared {s : Signer} {prevActive newActive : LiveKey} {prevCert cert : RotationCert}
    {now : Int} (hprep : Prepared C ok s w prevActive newActive prevCert cert now w1) :
    I (w1.tick now) := by
  obtain ⟨r, hr, rfl⟩ := hprep.clock
  exact hI.tick w1 r (hI.generate_done h hprep.gen) hr

lemma founded {active : LiveKey} {cert : RotationCert} {now : Int}
    (hfound : Founded C ok dir store w active cert now w1) : I (w1.tick now) := by
  obtain ⟨r, hr, rfl⟩ := hfound.clock
  exact hI.tick w1 r (hI.generate_done h hfound.gen) hr

section
variable
  (hgood : ∀ prevActive newActive prevCert cert now w1, Prepared C ok s w prevActive newActive prevCert cert now w1 → G (w1.tick now) (s.chain.extend cert newActive.locator))
include hgood

lemma rotate_stop {op : Op} {w' : World} (hstop : RotateStop C ok s w op w')
    (hcrash : crashes) : I w' := by
  cases hstop with
  | generating hgen => exact hI.generate_stop h hgen
  | certifying hgen hstop => exact hI.certify_stop (hI.generate_done h hgen) hstop hcrash
  | publishing hprep hstop =>
    exact hI.chain_stop (hI.prepared h hprep) (hgood _ _ _ _ _ _ hprep) hstop
  | undoing hprep hwrite hstop =>
    have hfailed := hI.chain_failed (hI.prepared h hprep) (hgood _ _ _ _ _ _ hprep) hwrite
    exact hI.destroy_stop hfailed hstop hcrash
  | destroying hprep hstop =>
    have hpublished := hI.publish _ s.dir _ (hI.prepared h hprep) (hgood _ _ _ _ _ _ hprep)
    exact hI.destroy_stop hpublished hstop hcrash

lemma rotate_done {res : Signer × Res RotationCert} {w' : World}
    (hdone : RotateDone C ok s w res w') : I w' := by
  cases hdone with
  | refused => exact h
  | noKey hgen => exact hI.generate_done h hgen
  | nilCert _ hgen => exact hI.generate_done h hgen
  | unsigned hgen hfail => exact hI.certify_failed (hI.generate_done h hgen) hfail
  | unpublished hprep hwrite hdone =>
    have hfailed := hI.chain_failed (hI.prepared h hprep) (hgood _ _ _ _ _ _ hprep) hwrite
    exact hI.destroy_done hfailed hdone
  | kept hprep hdone =>
    have hpublished := hI.publish _ s.dir _ (hI.prepared h hprep) (hgood _ _ _ _ _ _ hprep)
    exact hI.destroy_done hpublished hdone
  | rotated hprep hdone =>
    have hpublished := hI.publish _ s.dir _ (hI.prepared h hprep) (hgood _ _ _ _ _ _ hprep)
    exact hI.destroy_done hpublished hdone

end

section
variable {origin dir : Bytes}
  (hgood : ∀ active cert now w1, Founded C ok dir store w active cert now w1 → G (w1.tick now) ⟨origin, [some cert], active.locator⟩)
include hgood

/-- **`NewSignerWithStore` keeps the predicate where it stops.** -/
theorem start_stop {op : Op} {w' : World} (hstop : StartStop C ok origin dir store w op w')
    (hcrash : crashes) : I w' := by
  cases hstop with
  | reading => exact h
  | generating _ hgen => exact hI.generate_stop h hgen
  | signing _ hgen hstop => exact hI.certify_stop (hI.generate_done h hgen) hstop hcrash
  | publishing hfound hstop =>
    exact hI.chain_stop (hI.founded h hfound) (hgood _ _ _ _ hfound) hstop
  | discarding _ _ hstop => exact hI.destroy_stop h hstop hcrash

lemma start_done {res : Res Signer} {w' : World}
    (hdone : StartDone C ok origin dir store w res w') : I w' := by
  cases hdone with
  | failed => exact h
  | noKey _ hgen => exact hI.generate_done h hgen
  | unsigned _ hgen _ hfail => exact hI.certify_failed (hI.generate_done h hgen) hfail
  | unpublished hfound hwrite =>
    exact hI.chain_failed (hI.founded h hfound) (hgood _ _ _ _ hfound) hwrite
  | founded hfound => exact hI.publish _ dir _ (hI.founded h hfound) (hgood _ _ _ _ hfound)
  | mismatched _ _ hdone => exact hI.destroy_done h hdone
  | reopened => exact h

end

end Stable

lemma fits_noise {C : Crypto} {group : Option Group} {quant clocked : Prop} {w : World}
    {b : Bytes} (hb : Harmless b) {c : Content} (hc : (Content.text b).Part c) :
    Fits C group quant clocked w c := by
  obtain ⟨t, rfl, ht⟩ := hc.text
  exact fun k q hdec => absurd hdec (hb.part ht k q)

lemma core_stable {C : Crypto} {group : Option Group} {quant clocked crashes : Prop}
    {ok : Op → World → Choice → Prop} (henv : Env C ok clocked crashes) :
    Stable C ok crashes (Core C group quant clocked) (Good C group quant clocked) where
  edKey w r qpub h hr := h.make (henv.edKey w r hr) qpub
  keyPair w r label o1 o2 h hr ho1 ho2 := by
    obtain ⟨hpub, hlabel⟩ := henv.keyPair label w r hr
    exact h.addPair hpub hlabel ho1 ho2
  lost w hs w' h hlost := h.lost hlost
  tick w r h hr := h.tick fun hcl => henv.clock hcl w r hr
  key w p priv qPriv c h hmade hc := h.put (fits_key hmade hc) p
  noise w p b c hwhy h hb hc := by
    rcases henv.noise with hnoise | hcalm
    · exact h.put (fits_noise (hnoise _ _ hb) hc) p
    · exact (hwhy.elim hcalm.1 (hcalm.2 p)).elim
  drop w p h := h.drop p
  doc w p ch c h hgood hc :=
    have hfits : Fits C group quant clocked w (.doc ch.toJson) := ⟨ch, rfl, hgood⟩
    h.put (hfits.part hc) p
  publish w dir ch h hgood := h.publish hgood dir

end Stele.Keys
