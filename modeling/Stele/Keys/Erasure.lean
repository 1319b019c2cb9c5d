import Stele.Keys.Continuity
import Stele.Keys.Failures

/-!
# Old keys in the key directory

What a reader of the key directory can recover, over the life of a file-backed signer with crashes.
-/

namespace Stele

open Lib List Option

namespace Chain

def keys (ch : Chain) : List Bytes := ch.certs.reduceOption.map RotationCert.publicKey

lemma keys_crossed (ch : Chain) : ch.crossed.keys = ch.keys := by
  simp only [keys, crossed, List.reduceOption_map, List.map_map]
  rfl

lemma keys_extend (ch : Chain) (cert : RotationCert) (locator : Bytes) :
    (ch.extend cert locator).keys = ch.keys ++ [cert.publicKey] := by
  simp [keys, extend, reduceOption_append]

lemma keys_last {ch : Chain} {last : RotationCert}
    (hlast : ch.certs.getLast? = some (some last)) :
    ch.keys = ch.keys.dropLast ++ [last.publicKey] ∧
      ∀ c, some c ∈ ch.certs → c = last ∨ c.publicKey ∈ ch.keys.dropLast := by
  obtain ⟨init, hinit⟩ := getLast?_eq_some_iff.mp hlast
  have hkeys : ch.keys = init.reduceOption.map RotationCert.publicKey ++ [last.publicKey] := by
    simp [keys, hinit, reduceOption_append]
  have hdrop : ch.keys.dropLast = init.reduceOption.map RotationCert.publicKey := by
    rw [hkeys, dropLast_concat]
  rw [hdrop]
  refine ⟨hkeys, fun c hc => ?_⟩
  rw [hinit] at hc
  rcases mem_append.mp hc with hc | hc
  · exact .inr (mem_map.mpr ⟨c, reduceOption_mem_iff.mpr hc, rfl⟩)
  · cases mem_singleton.mp hc
    exact .inl rfl

lemma keys_getLast? {ch : Chain} {pub x : Bytes} (h : ch.activePublicKey = .ok pub)
    (hx : ch.keys.getLast? = some x) : x = pub := by
  unfold activePublicKey at h
  cases hlast : ch.certs.getLast? with
  | none =>
    have hnil : ch.keys = [] := by
      rw [keys, getLast?_eq_none_iff.mp hlast]
      rfl
    rw [hnil] at hx
    cases hx
  | some o =>
    cases o with
    | none =>
      rw [hlast] at h
      cases h
    | some =>
      rw [hlast, Except.ok.injEq] at h
      rw [(keys_last hlast).1, getLast?_concat, Option.some.injEq] at hx
      exact hx.symm.trans h

end Chain

namespace Keys

open Prog

/-! ## What a file gives -/

/-- A text gives the private key `k` to its reader: `Load` reads it, or it is at the start. -/
def Gives (t k : Bytes) : Prop := recover t = some k ∨ ∃ q, decodePrivate t = .ok (k, q)

lemma Gives.part {priv : EdKey} {qPriv : Option DilKey} {t k : Bytes}
    (ht : t <+: encodePrivate priv (qPriv.map Subtype.val)) (h : Gives t k) : k = priv := by
  rcases h with hrec | ⟨q, hdec⟩
  · exact recover_part ht hrec
  · exact (decodePrivate_part ht hdec).1

def Inert (b : Bytes) : Prop := Harmless b ∧ ∀ n, n ≤ b.length → recover (b.take n) = none

instance (b : Bytes) : Decidable (Inert b) :=
  have : Decidable (∀ n, n ≤ b.length → recover (b.take n) = none) := Nat.decidableBallLE _ _
  inferInstanceAs (Decidable (_ ∧ _))

lemma Inert.part {b t : Bytes} (h : Inert b) (ht : t <+: b) (k : Bytes) : ¬ Gives t k := by
  rintro (hrec | ⟨q, hdec⟩)
  · have hnone := h.2 t.length ht.length_le
    rw [← prefix_iff_eq_take.mp ht, hrec] at hnone
    cases hnone
  · exact h.1.part ht k q hdec

lemma inert_nil : Inert [] := by decide

def Recovers (w : World) (p k : Bytes) : Prop := ∃ t, w.files p = some (.text t) ∧ Gives t k

section
variable {w w' : World} {p path k : Bytes}

lemma Recovers.of_file (h : Recovers w' p k) (heq : w'.files p = w.files p) : Recovers w p k := by
  obtain ⟨t, ht, hgives⟩ := h
  exact ⟨t, heq ▸ ht, hgives⟩

lemma not_recovers_none (h : w.files p = none) : ¬ Recovers w p k := by
  rintro ⟨t, ht, -⟩
  rw [h] at ht
  cases ht

variable {c : Content}

lemma not_recovers_noise {b : Bytes} (hb : Inert b) (hc : (Content.text b).Part c)
    (h : w.files p = some c) : ¬ Recovers w p k := by
  obtain ⟨t, rfl, hpart⟩ := hc.text
  rintro ⟨t', ht', hgives⟩
  rw [h, Option.some.injEq, Content.text.injEq] at ht'
  exact hb.part (ht' ▸ hpart) k hgives

lemma not_recovers_doc {j : Json} (hc : (Content.doc j).Part c) (h : w.files p = some c) :
    ¬ Recovers w p k := by
  rintro ⟨t, ht, hgives⟩
  rw [h, Option.some.injEq] at ht
  cases hc with
  | all => cases ht
  | cut n =>
    by_cases hn : n = 0
    · simp only [Content.cut, hn, ↓reduceIte, Content.text.injEq] at ht
      exact inert_nil.part (ht ▸ prefix_refl _) k hgives
    · simp [Content.cut, hn] at ht

lemma Recovers.key {priv : EdKey} {qPriv : Option DilKey} (h : Recovers w p k)
    (hc : (keyContent priv qPriv).Part c) (hfile : w.files p = some c) : k = priv := by
  obtain ⟨t, ht, hgives⟩ := h
  obtain ⟨t', rfl, hpart⟩ := hc.text
  rw [hfile, Option.some.injEq, Content.text.injEq] at ht
  exact hgives.part (ht ▸ hpart)

end

/-! ## The keys on disk -/

structure Stock (C : Crypto) (w : World) : Prop where
  made : ∀ p k, Recovers w p k → C.edPublic k ∈ w.made.map Prod.fst
  single : ∀ p p' k k', Recovers w p k → Recovers w p' k' → C.edPublic k = C.edPublic k' → p = p'

structure After (C : Crypto) (w w' : World) : Prop where
  stock : Stock C w'
  made : ∀ pub ∈ w.made.map Prod.fst, pub ∈ w'.made.map Prod.fst
  older : ∀ p k, Recovers w' p k → C.edPublic k ∈ w.made.map Prod.fst → Recovers w p k

/-- Of the keys of a chain, the oldest first, only the last is on disk. -/
structure Spent (C : Crypto) (w : World) (keys : List Bytes) : Prop where
  made : ∀ pub ∈ keys, pub ∈ w.made.map Prod.fst
  gone : ∀ p k, Recovers w p k → C.edPublic k ∉ keys.dropLast

variable {C : Crypto}

section
variable {w w' w'' : World}

lemma Stock.shrink (h : Stock C w) (hmade : w'.made = w.made)
    (hrec : ∀ p k, Recovers w' p k → Recovers w p k) : After C w w' where
  stock := {
    made := fun p k hk => hmade ▸ h.made p k (hrec p k hk)
    single := fun p p' k k' hk hk' => h.single p p' k k' (hrec p k hk) (hrec p' k' hk') }
  made _ hpub := hmade ▸ hpub
  older p k hk _ := hrec p k hk

lemma After.trans (h : After C w w') (h' : After C w' w'') : After C w w'' where
  stock := h'.stock
  made pub hpub := h'.made pub (h.made pub hpub)
  older p k hk hpub := h.older p k (h'.older p k hk (h.made _ hpub)) hpub

lemma Stock.grow (h : Stock C w) (path : Bytes) {pub qpub : Bytes}
    (hmade : w'.made = (pub, qpub) :: w.made)
    (hnew : pub ∉ w.made.map Prod.fst)
    (hrec : ∀ p k, Recovers w' p k → Recovers w p k ∨ p = path ∧ C.edPublic k = pub) :
    After C w w' := by
  have hmem : ∀ x ∈ w.made.map Prod.fst, x ∈ w'.made.map Prod.fst := by
    intro x hx
    rw [hmade]
    exact mem_cons_of_mem _ hx
  have hold : ∀ p k, Recovers w p k → C.edPublic k ≠ pub :=
    fun p k hk heq => hnew (heq ▸ h.made p k hk)
  refine ⟨⟨fun p k hk => ?_, fun p p' k k' hk hk' heq => ?_⟩, hmem, fun p k hk hpub => ?_⟩
  · rcases hrec p k hk with hk | ⟨-, rfl⟩
    · exact hmem _ (h.made p k hk)
    · rw [hmade]
      exact mem_cons_self ..
  · rcases hrec p k hk with hk | ⟨rfl, hpub⟩
    · rcases hrec p' k' hk' with hk' | ⟨rfl, hpub'⟩
      · exact h.single p p' k k' hk hk' heq
      · exact absurd (heq.trans hpub') (hold p k hk)
    · rcases hrec p' k' hk' with hk' | ⟨rfl, -⟩
      · exact absurd (heq.symm.trans hpub) (hold p' k' hk')
      · rfl
  · rcases hrec p k hk with hk | ⟨-, rfl⟩
    · exact hk
    · exact absurd hpub hnew

lemma Spent.after {keys : List Bytes} (h : Spent C w keys) (ha : After C w w') :
    Spent C w' keys where
  made pub hpub := ha.made pub (h.made pub hpub)
  gone p k hk hmem :=
    have hpub := h.made _ (mem_of_mem_dropLast hmem)
    h.gone p k (ha.older p k hk hpub) hmem

end

/-! ## What the calls leave on disk -/

variable {ok : Op → World → Choice → Prop} {hybrid : Bool}

section
variable {dir path : Bytes} {w w' : World} {priv : EdKey} {qPriv : Option DilKey} {op : Op}
  {p k : Bytes}

section

variable (hnoise : ∀ path b, Noise ok path b → Inert b)

include hnoise

lemma EraseStop.recovers
    (h : EraseStop ok path w op w') (hk : Recovers w' p k) : Recovers w p k := by
  cases h with
  | before => exact hk
  | kept => exact hk
  | during hb hc =>
    by_cases hp : p = path
    · subst hp
      exact absurd hk (not_recovers_noise (hnoise _ _ hb) hc (World.put_files_self ..))
    · exact hk.of_file (World.put_files_ne _ hp _)

lemma EraseDone.recovers {err : Option Err}
    (h : EraseDone ok path w err w') (hk : Recovers w' p k) : Recovers w p k := by
  cases h with
  | skipped => exact hk
  | kept => exact hk
  | left _ hb hc =>
    by_cases hp : p = path
    · subst hp
      exact absurd hk (not_recovers_noise (hnoise _ _ hb) hc (World.put_files_self ..))
    · exact hk.of_file (World.put_files_ne _ hp _)
  | removed =>
    by_cases hp : p = path
    · subst hp
      exact absurd hk (not_recovers_none (World.drop_files_self ..))
    · exact hk.of_file (World.drop_files_ne _ hp)

lemma EraseStop.erased (hop : ¬ op.BeforeErase path) (hopen : ¬ Fails ok (.openFile path))
    (h : EraseStop ok path w op w') (k : Bytes) : ¬ Recovers w' path k := by
  cases h with
  | before hbefore => exact absurd hbefore hop
  | kept hfails => exact absurd hfails hopen
  | during hb hc => exact not_recovers_noise (hnoise _ _ hb) hc (World.put_files_self ..)

end

lemma EraseDone.erased (hpath : path ≠ []) (hstat : ¬ Fails ok (.stat path))
    (h : EraseDone ok path w none w') (k : Bytes) : ¬ Recovers w' path k := by
  cases h with
  | skipped h =>
    rcases h with h | h | h
    · exact absurd h hpath
    · exact absurd h hstat
    · exact not_recovers_none h
  | removed => exact not_recovers_none (World.drop_files_self ..)

lemma EraseStop.made (h : EraseStop ok path w op w') : w'.made = w.made := by
  cases h <;> rfl

lemma EraseDone.made {err : Option Err} (h : EraseDone ok path w err w') :
    w'.made = w.made := by
  cases h <;> rfl

lemma Draft.recovers (hnoise : ∀ path b, Noise ok path b → Inert b)
    (h : Draft C ok dir hybrid w priv qPriv path w') (hk : Recovers w' p k) :
    Recovers w p k ∨ p = path ∧ k = priv := by
  by_cases hp : p = path
  · subst hp
    have hkey := h.key
    generalize hafter : w'.files p = after at hkey
    cases hkey with
    | same => exact .inl (hk.of_file hafter)
    | gone => exact absurd hk (not_recovers_none hafter)
    | part hc => exact .inr ⟨rfl, hk.key hc hafter⟩
    | noise hb hc => exact absurd hk (not_recovers_noise (hnoise _ _ hb) hc hafter)
  · by_cases htmp : p = tmpPath dir
    · subst htmp
      rcases h.tmp with hsame | ⟨j, c, hfile, hc⟩
      · exact .inl (hk.of_file hsame)
      · exact absurd hk (not_recovers_doc hc hfile)
    · exact .inl (hk.of_file (h.other p hp htmp))

lemma Published.recovers {chain : Chain}
    (h : Published C ok dir hybrid w chain priv qPriv path w') (hk : Recovers w' p k) :
    Recovers w p k ∨ p = path ∧ k = priv := by
  by_cases hp : p = path
  · subst hp
    exact .inr ⟨rfl, hk.key .all h.key⟩
  · by_cases htmp : p = tmpPath dir
    · subst htmp
      exact absurd hk (not_recovers_none h.tmp)
    · by_cases hchain : p = chainPath dir
      · subst hchain
        exact absurd hk (not_recovers_doc .all h.chain_file)
      · exact .inl (hk.of_file (h.other p hp htmp hchain))

variable (hkey : ∀ w r, ok .edKey w r → C.edPublic r.edKey ∉ w.made.map Prod.fst)
include hkey

lemma NewKey.fresh {w1 : World} (h : NewKey C ok dir hybrid w priv qPriv path w1) :
    C.edPublic priv ∉ w.made.map Prod.fst := by
  obtain ⟨r, hr, rfl⟩ := h.chosen
  exact hkey w r hr

/-- **The keys on disk while `chain.json` is as it was.** -/
theorem Unpublished.after (hnoise : ∀ path b, Noise ok path b → Inert b)
    (h : Unpublished C ok dir hybrid w w') (hs : Stock C w) : After C w w' := by
  cases h with
  | idle hfiles hmade => exact hs.shrink hmade fun p k hk => hk.of_file (by rw [hfiles])
  | keyed hr hfiles hmade =>
    exact hs.grow [] hmade (hkey w _ hr) fun p k hk => .inl (hk.of_file (by rw [hfiles]))
  | draft h =>
    rename_i priv qPriv path
    obtain ⟨w1, hnew⟩ := h.new
    refine hs.grow path h.made (hnew.fresh hkey) fun p k hk => ?_
    rcases h.recovers hnoise hk with hk | ⟨hp, rfl⟩
    · exact .inl hk
    · exact .inr ⟨hp, rfl⟩

/-- **The keys on disk when a certificate has just been published.** -/
theorem Published.after {chain : Chain} (h : Published C ok dir hybrid w chain priv qPriv path w')
    (hs : Stock C w) :
    After C w w' ∧ C.edPublic priv ∈ w'.made.map Prod.fst ∧
      ∀ p k, Recovers w' p k → C.edPublic k = C.edPublic priv → p = path := by
  obtain ⟨w1, hnew⟩ := h.new
  have hfresh := hnew.fresh hkey
  refine ⟨hs.grow path h.made hfresh fun p k hk => ?_, ?_, fun p k hk heq => ?_⟩
  · rcases h.recovers hk with hk | ⟨hp, rfl⟩
    · exact .inl hk
    · exact .inr ⟨hp, rfl⟩
  · rw [h.made]
    exact mem_cons_self ..
  · rcases h.recovers hk with hk | ⟨hp, -⟩
    · exact absurd (heq ▸ hs.made p k hk) hfresh
    · exact hp

end

/-! ## Rotations -/

variable {s : Signer}

section
variable {w w' : World}

lemma Spent.rotated {keys : List Bytes} {pub path : Bytes} (h : Spent C w keys)
    (ha : After C w w') (hpub : pub ∈ w'.made.map Prod.fst)
    (hlast : ∀ p k, Recovers w p k → keys.getLast? = some (C.edPublic k) → p = path)
    (hgone : ∀ k, ¬ Recovers w' path k) : Spent C w' (keys ++ [pub]) where
  made x hx := by
    rcases mem_append.mp hx with hx | hx
    · exact ha.made x (h.made x hx)
    · rw [mem_singleton.mp hx]
      exact hpub
  gone p k hk hmem := by
    rw [dropLast_concat] at hmem
    have hold := ha.older p k hk (h.made _ hmem)
    have hne : keys ≠ [] := ne_nil_of_mem hmem
    rw [← dropLast_append_getLast hne] at hmem
    rcases mem_append.mp hmem with hmem | hmem
    · exact h.gone p k hold hmem
    · have heq := mem_singleton.mp hmem
      have hp := hlast p k hold (by rw [heq, getLast?_eq_some_getLast hne])
      exact hgone k (hp ▸ hk)

lemma Prepared.wiped (hkey : ∀ w r, ok .edKey w r → C.edPublic r.edKey ∉ w.made.map Prod.fst)
    (hstore : s.store = .file s.dir hybrid) (hstock : Stock C w) (hspent : Spent C w s.chain.keys)
    {path : Bytes}
    (hlast : ∀ p k, Recovers w p k → s.chain.keys.getLast? = some (C.edPublic k) → p = path)
    {prevActive newActive : LiveKey} {prevCert cert : RotationCert} {now : Int} {w1 : World}
    (hprep : Prepared C ok s w prevActive newActive prevCert cert now w1)
    (hrec : ∀ p k, Recovers w' p k → Recovers
      ((w1.tick now).publish s.dir (s.chain.extend cert newActive.locator)) p k)
    (hmade : w'.made = w1.made) (hgone : ∀ k, ¬ Recovers w' path k) :
    After C w w' ∧ Spent C w' (s.chain.extend cert newActive.locator).keys ∧
      ∃ k : FileKey, newActive = .file k ∧ IsKeyPath s.dir k.path ∧
        ∀ p key, Recovers w' p key → C.edPublic key = cert.publicKey → p = k.path := by
  obtain ⟨priv, qPriv, path', rfl, hdraft, hpub⟩ := hprep.published hstore
  obtain ⟨hafter, hnew, hplace⟩ := hpub.after hkey hstock
  have hwiped : After C w w' := hafter.trans (hafter.stock.shrink hmade hrec)
  have hcert : cert.publicKey = C.edPublic priv := hprep.certified.fields.2.1
  refine ⟨hwiped, ?_, _, rfl, hdraft.isKeyPath, fun p key hk heq => ?_⟩
  · rw [Chain.keys_extend, hcert]
    exact hspent.rotated hwiped (hmade ▸ hnew) hlast hgone
  · exact hplace p key (hrec p key hk) (heq.trans hcert)

end

/-! ## Runs -/

def Op.beforeErase (path : Bytes) : Op → Bool
  | .stat p | .noise p _ | .openFile p => p = path
  | _ => false

lemma Op.BeforeErase.beforeErase {path : Bytes} {op : Op} (h : op.BeforeErase path) :
    op.beforeErase path = true := by
  rcases h with rfl | ⟨n, rfl⟩ | rfl <;> simp [Op.beforeErase]

def diesErasing (C : Crypto) (s : Signer) (w : World) (rs : List Choice) : Bool :=
  match s.active, (s.rotate C).exec (perform C) w rs with
  | some key, (_, .ask op _) => op.beforeErase key.locator
  | _, _ => false

/-- The calls of a process whose active key is at `path`: new keys are new, noise gives no key, and
the file at `path` can be found and emptied. -/
def Wiping (C : Crypto) (path : Option Bytes) : Op → World → Choice → Prop
  | .edKey, w, r => C.edPublic r.edKey ∉ w.made.map Prod.fst
  | .noise _ size, _, r => Inert (Crypto.fit size r.bytes)
  | .stat p, _, r => path = some p → r.err = none
  | .openFile p, _, r => path = some p → r.err = none
  | _, _, _ => True

instance (C : Crypto) (path : Option Bytes) (op : Op) (w : World) (r : Choice) :
    Decidable (Wiping C path op w r) := by
  unfold Wiping
  split <;> infer_instance

def Sys.keyPath (sys : Sys) : Option Bytes := (sys.signer.bind Signer.active).map LiveKey.locator

/-- A run of a file-backed signer: no rotation fails after it has published the certificate, and no
process dies there before the key file is emptied. -/
def Wiped (C : Crypto) (dir : Bytes) (sys : Sys) (a : Action) : Prop :=
  Admitted C dir (Wiping C sys.keyPath) sys a ∧ InTime C sys a ∧
    match a with
    | .start _ store _ _ => store = .file dir false ∨ store = .file dir true
    | .rotate rs => ∀ s, sys.signer = some s → diesErasing C s sys.world rs = false
    | .checkpoint _ _ _ _ _ => True

instance (C : Crypto) (dir : Bytes) (sys : Sys) : (a : Action) → Decidable (Wiped C dir sys a)
  | .start .. | .rotate .. | .checkpoint .. => by simp only [Wiped]; infer_instance

/-- What is known about a running signer: the file of its key is the only place of the last key of
its chain. -/
structure Holder (C : Crypto) (dir : Bytes) (w : World) (s : Signer) : Prop where
  dir_eq : s.dir = dir
  store : ∃ hybrid, s.store = .file dir hybrid
  active : ∃ k : FileKey, s.active = some (.file k) ∧ k.path ≠ [] ∧ k.path ≠ chainPath dir ∧
    ∀ p key, Recovers w p key → s.chain.keys.getLast? = some (C.edPublic key) → p = k.path

structure ErasureInv (C : Crypto) (dir : Bytes) (sys : Sys) : Prop where
  stock : Stock C sys.world
  chain : ∀ ch, Reads dir sys.world ch → Spent C sys.world ch.keys
  signer : ∀ s, sys.signer = some s → Holder C dir sys.world s ∧
    ∃ ch, Reads dir sys.world ch ∧ s.chain.keys = ch.keys

section
variable {dir : Bytes} {sys : Sys} {w : World}

lemma IsKeyPath.ne_nil {path : Bytes} (h : IsKeyPath dir path) : path ≠ [] := by
  obtain ⟨now, suffix, rfl⟩ := h
  simp [join, keyName, lit]

lemma ErasureInv.stopped (h : ErasureInv C dir sys) (ha : After C sys.world w)
    (hfile : w.files (chainPath dir) = sys.world.files (chainPath dir)) :
    ErasureInv C dir { sys with world := w, signer := none } where
  stock := ha.stock
  chain ch hch := (h.chain ch (hch.of_file hfile.symm)).after ha
  signer s hs := by cases hs

lemma ErasureInv.spent (h : ErasureInv C dir sys) (hsig : sys.signer = some s) :
    Spent C sys.world s.chain.keys := by
  obtain ⟨-, ch, hch, hkeys⟩ := h.signer s hsig
  rw [hkeys]
  exact h.chain ch hch

lemma Holder.after {s' : Signer} (h : Holder C dir sys.world s)
    (hspent : Spent C sys.world s.chain.keys) (ha : After C sys.world w) (hdir : s'.dir = s.dir)
    (hstore : s'.store = s.store) (hactive : s'.active = s.active)
    (hcerts : s'.chain.certs = s.chain.certs) : Holder C dir w s' := by
  obtain ⟨k, hk, hne, hchain, hplace⟩ := h.active
  have hkeys : s'.chain.keys = s.chain.keys := by rw [Chain.keys, hcerts, Chain.keys]
  refine ⟨hdir.trans h.dir_eq, hstore ▸ h.store, k, hactive.trans hk, hne, hchain, ?_⟩
  intro p key hrec hlast
  rw [hkeys] at hlast
  exact hplace p key (ha.older p key hrec (hspent.made _ (mem_of_getLast? hlast))) hlast

lemma destroyStop_after {w' : World} (hnoise : ∀ path b, Noise ok path b → Inert b)
    (hs : Stock C w) {key : LiveKey} (hkey : key.BesideChain dir) {op : Op}
    (h : DestroyStop ok key w op w') :
    After C w w' ∧ w'.files (chainPath dir) = w.files (chainPath dir) := by
  cases key with
  | file k =>
    have hstop : EraseStop ok k.path w op w' := h
    exact ⟨hs.shrink hstop.made fun p k hk => hstop.recovers hnoise hk,
      hstop.touched _ (Ne.symm hkey)⟩
  | hsm => exact hkey.elim

lemma destroyDone_after {w' : World} (hnoise : ∀ path b, Noise ok path b → Inert b)
    (hs : Stock C w) {key : LiveKey} (hkey : key.BesideChain dir) {res : LiveKey × Option Err}
    (h : DestroyDone ok key w res w') :
    After C w w' ∧ w'.files (chainPath dir) = w.files (chainPath dir) := by
  cases key with
  | file k =>
    obtain ⟨key', err⟩ := res
    obtain ⟨-, hdone⟩ := h
    have hdone : EraseDone ok k.path w err w' := hdone
    exact ⟨hs.shrink hdone.made fun p k hk => hdone.recovers hnoise hk,
      hdone.touched _ (Ne.symm hkey)⟩
  | hsm => exact hkey.elim

lemma Wiping.fresh {path : Option Bytes} (w : World) (r : Choice)
    (h : Wiping C path .edKey w r) : C.edPublic r.edKey ∉ w.made.map Prod.fst := h

lemma Wiping.inert {path : Option Bytes} (p b : Bytes) (h : Noise (Wiping C path) p b) :
    Inert b := by
  obtain ⟨w, n, r, hr, rfl⟩ := h
  exact hr

variable {origin : Bytes}

lemma ErasureInv.founded (h : ErasureInv C dir sys) {path : Bytes} {hybrid : Bool} {priv : EdKey}
    {qPriv : Option DilKey} {cert : RotationCert}
    (hkey : ∀ w r, ok .edKey w r → C.edPublic r.edKey ∉ w.made.map Prod.fst)
    (hpub : Published C ok dir hybrid sys.world ⟨origin, [some cert], path⟩ priv qPriv path w)
    (hcert : cert.publicKey = C.edPublic priv) (rotator : Option (Option Group)) :
    ErasureInv C dir { sys with
      world := w
      signer := some ⟨origin, dir, ⟨origin, [some cert], path⟩,
        some (fileKey C path priv (qPriv.map Subtype.val)), .file dir hybrid, rotator⟩ } := by
  obtain ⟨hafter, hnew, hplace⟩ := hpub.after hkey h.stock
  obtain ⟨w1, hpath⟩ := hpub.new
  have hreads : Reads dir w (Chain.crossed ⟨origin, [some cert], path⟩) :=
    ⟨_, hpub.chain_file, Chain.ofJson_toJson _⟩
  have hkeys : (Chain.mk origin [some cert] path).keys = [C.edPublic priv] := by
    simp [Chain.keys, List.reduceOption, hcert]
  refine ⟨hafter.stock, fun ch hch => ?_, fun s hs => ?_⟩
  · cases hch.unique hreads
    rw [Chain.keys_crossed, hkeys]
    exact ⟨fun pub hmem => mem_singleton.mp hmem ▸ hnew, nofun⟩
  · cases hs
    refine ⟨⟨rfl, ⟨hybrid, rfl⟩, _, rfl, hpath.isKeyPath.ne_nil, hpath.isKeyPath.ne_chain, ?_⟩,
      _, hreads, (Chain.keys_crossed _).symm⟩
    intro p key hrec hlast
    rw [hkeys] at hlast
    exact hplace p key hrec (Option.some.inj hlast).symm

lemma ErasureInv.reopened (h : ErasureInv C dir sys) {hybrid : Bool} {chain : Chain}
    {active : LiveKey} (hopen : Reopened C origin dir (.file dir hybrid) sys.world chain active)
    (hpub : chain.activePublicKey = .ok active.pub) (rotator : Option (Option Group)) :
    ErasureInv C dir { sys with
      signer := some ⟨origin, dir, chain, some active, .file dir hybrid, rotator⟩ } := by
  have hbeside := hopen.besideChain
  obtain ⟨raw, priv, qPriv, hfile, hdec, rfl⟩ := hopen.load
  have hcheck := hopen.check
  simp only [checkChain, bind_ok, ensure_ok, exists_const] at hcheck
  refine ⟨h.stock, h.chain, fun s hs => ?_⟩
  cases hs
  refine ⟨⟨rfl, ⟨hybrid, rfl⟩, _, rfl, hcheck.2.2, hbeside, fun p key hrec hlast => ?_⟩, chain,
    hopen.read, rfl⟩
  exact h.stock.single p _ key priv hrec ⟨raw, hfile, .inr ⟨qPriv, hdec⟩⟩
    (Chain.keys_getLast? hpub hlast)

lemma ErasureInv.start (h : ErasureInv C dir sys) {store : KeyStore}
    {rotator : Option (Option Group)} {rs : List Choice}
    (ha : Wiped C dir sys (.start origin store rotator rs)) :
    ErasureInv C dir (step C dir sys (.start origin store rotator rs)) := by
  obtain ⟨hadm, -, hstore⟩ := ha
  obtain ⟨hybrid, rfl⟩ : ∃ hybrid, store = .file dir hybrid :=
    hstore.elim (fun h => ⟨false, h⟩) fun h => ⟨true, h⟩
  rcases start_cases hadm with ⟨op, w, -, hstop, heq⟩ | ⟨e, w, hdone, heq⟩ | ⟨s, w, hdone, heq⟩
  · rw [heq]
    rcases hstop.files with hun | ⟨chain, active, hopen, -, hdestroy⟩
    · exact h.stopped (hun.after Wiping.fresh Wiping.inert h.stock) hun.chain
    · obtain ⟨hafter, hfile⟩ := destroyStop_after Wiping.inert h.stock hopen.besideChain hdestroy
      exact h.stopped hafter hfile
  · rw [heq]
    rcases hdone.files with hun | ⟨chain, active, res, hopen, -, hdestroy⟩
    · exact h.stopped (hun.after Wiping.fresh Wiping.inert h.stock) hun.chain
    · obtain ⟨hafter, hfile⟩ := destroyDone_after Wiping.inert h.stock hopen.besideChain hdestroy
      exact h.stopped hafter hfile
  · rw [heq]
    cases hdone with
    | founded hfound =>
      obtain ⟨priv, qPriv, path, rfl, -, hpub⟩ := hfound.published origin
      exact h.founded Wiping.fresh hpub hfound.fields.2 rotator
    | reopened hopen hpub => exact h.reopened hopen hpub rotator

section
variable {k : FileKey} (h : ErasureInv C s.dir sys) (hsig : sys.signer = some s)
  (hstore : s.store = .file s.dir hybrid) (hactive : s.active = some (.file k))
  (hbeside : k.path ≠ chainPath s.dir)
  (hplace : ∀ p key, Recovers sys.world p key → s.chain.keys.getLast? = some (C.edPublic key) → p = k.path)
include h hsig hstore hactive hbeside hplace

lemma ErasureInv.rotateStop (hopens : ¬ Fails (Wiping C sys.keyPath) (.openFile k.path)) {op : Op}
    (hstop : RotateStop C (Wiping C sys.keyPath) s sys.world op w)
    (hop : ¬ op.BeforeErase k.path) :
    ErasureInv C s.dir { sys with world := w, signer := none } := by
  rcases hstop.files hstore with hun | ⟨prevActive, newActive, prevCert, cert, now, w1, hprep,
    hdestroy⟩
  · exact h.stopped (hun.after Wiping.fresh Wiping.inert h.stock) hun.chain
  · -- The certificate is published, and the key file has been emptied.
    rw [hprep.active, Option.some.injEq] at hactive
    subst hactive
    have herase : EraseStop _ k.path _ op w := hdestroy
    obtain ⟨hafter, hnew, -⟩ := hprep.wiped Wiping.fresh hstore h.stock (h.spent hsig) hplace
      (fun p k hk => herase.recovers Wiping.inert hk) herase.made
      (herase.erased Wiping.inert hop hopens)
    have hchain := (herase.touched _ (Ne.symm hbeside)).trans (publish_chain _ _ _)
    refine ⟨hafter.stock, fun ch' hch' => ?_, nofun⟩
    cases hch'.unique ⟨_, hchain, Chain.ofJson_toJson _⟩
    rw [Chain.keys_crossed]
    exact hnew

lemma ErasureInv.rotateDone (hne : k.path ≠ [])
    (hfound : ¬ Fails (Wiping C sys.keyPath) (.stat k.path)) {s' : Signer} {res : Res RotationCert}
    (hdone : RotateDone C (Wiping C sys.keyPath) s sys.world (s', res) w)
    (hlate : ∀ e, res = .error e → s'.chain.certs.length ≤ s.chain.certs.length) :
    ErasureInv C s.dir { sys with world := w, signer := some s' } := by
  obtain ⟨-, hdir', hstore', -⟩ := hdone.same
  obtain ⟨hholder, ch, hreads, hkeys⟩ := h.signer s hsig
  rcases hdone.files hstore with ⟨hun, hcerts, hsame⟩ | ⟨prevActive, newActive, prevCert, cert,
    now, w1, prevActive', err, hprep, hdestroy, hchain, hactive', hfailed⟩
  · have hafter := hun.after Wiping.fresh Wiping.inert h.stock
    refine ⟨hafter.stock,
      fun ch' hch' => (h.chain ch' (hch'.of_file hun.chain.symm)).after hafter,
      fun s'' hs'' => ?_⟩
    cases hs''
    refine ⟨hholder.after (h.spent hsig) hafter hdir' hstore' hsame hcerts, ch,
      hreads.of_file hun.chain, ?_⟩
    rw [Chain.keys, hcerts]
    exact hkeys
  · -- The certificate is published, and the key before was destroyed without an error.
    have herr : err = none := by
      by_contra hsome
      obtain ⟨e, rfl⟩ := hfailed hsome
      have hle := hlate e rfl
      simp only [hchain, Chain.extend, length_append, length_singleton] at hle
      omega
    subst herr
    rw [hprep.active, Option.some.injEq] at hactive
    subst hactive
    have herase : EraseDone _ k.path _ none w := hdestroy.2
    obtain ⟨hafter, hnew, knew, rfl, hkpath, hkplace⟩ := hprep.wiped Wiping.fresh hstore h.stock
      (h.spent hsig) hplace (fun p k hk => herase.recovers Wiping.inert hk) herase.made
      (herase.erased hne hfound)
    have hfile := (herase.touched _ (Ne.symm hbeside)).trans (publish_chain _ _ _)
    have hreads' : Reads s.dir w (Chain.crossed (s.chain.extend cert knew.path)) :=
      ⟨_, hfile, Chain.ofJson_toJson _⟩
    refine ⟨hafter.stock, fun ch' hch' => ?_, fun s'' hs'' => ?_⟩
    · cases hch'.unique hreads'
      rw [Chain.keys_crossed]
      exact hnew
    · cases hs''
      refine ⟨⟨hdir', ⟨hybrid, hstore'.trans hstore⟩, knew, hactive', hkpath.ne_nil,
        hkpath.ne_chain, fun p key hrec hlast => ?_⟩, _, hreads', ?_⟩
      · rw [hchain, Chain.keys_extend, getLast?_concat, Option.some.injEq] at hlast
        exact hkplace p key hrec hlast.symm
      · rw [hchain, Chain.keys_crossed]
        rfl

end

lemma ErasureInv.rotate (h : ErasureInv C dir sys) (hsig : sys.signer = some s) {rs : List Choice}
    (ha : Wiped C dir sys (.rotate rs)) : ErasureInv C dir (step C dir sys (.rotate rs)) := by
  obtain ⟨hadm, htime, hdies⟩ := ha
  obtain ⟨rfl, ⟨hybrid, hstore⟩, k, hactive, hne, hbeside, hplace⟩ := (h.signer s hsig).1
  have hpath : sys.keyPath = some k.path := by
    rw [Sys.keyPath, hsig, bind_some, hactive]
    rfl
  cases hexec : (s.rotate C).exec (perform C) sys.world rs with
  | mk w p =>
  cases p with
  | ask op rest =>
    rw [show step C s.dir sys (.rotate rs) = { sys with world := w, signer := none } by
      simp [step, hsig, hexec]]
    refine h.rotateStop hsig hstore hactive hbeside hplace ?_
      ((safe_rotate s sys.world).stopped (hadm s hsig) hexec) fun hbefore => ?_
    · rintro ⟨w, r, hr, herr⟩
      exact herr (hr hpath)
    · have hdie := hdies s hsig
      simp only [diesErasing, hactive, hexec] at hdie
      exact absurd (hbefore.beforeErase.symm.trans hdie) (by decide)
  | ret out =>
    obtain ⟨s', res⟩ := out
    rw [show step C s.dir sys (.rotate rs) = { sys with world := w, signer := some s' } by
      simp [step, hsig, hexec]]
    refine h.rotateDone hsig hstore hactive hbeside hplace hne ?_
      ((safe_rotate s sys.world).returned (hadm s hsig) hexec) ?_
    · rintro ⟨w, r, hr, herr⟩
      exact herr (hr hpath)
    · rintro e rfl
      have hlate := htime s hsig
      simpa only [failsLate, hexec, decide_eq_false_iff_not, Nat.not_lt] using hlate

/-- **A step leaves no key of an earlier epoch on disk.** -/
theorem erasure_step (a : Action) (h : ErasureInv C dir sys) (ha : Wiped C dir sys a) :
    ErasureInv C dir (step C dir sys a) := by
  cases a with
  | start => exact h.start ha
  | rotate =>
    exact step_running (I := ErasureInv C dir) h (by simp) fun s hsig => h.rotate hsig ha
  | checkpoint =>
    refine step_running (I := ErasureInv C dir) h (by simp) fun s hsig => ?_
    obtain ⟨w, hw, hcases⟩ := checkpoint_cases hsig ha.1
    obtain ⟨hfiles, hmade⟩ : w.files = sys.world.files ∧ w.made = sys.world.made := by
      rcases hw with rfl | ⟨r, -, rfl⟩ <;> exact ⟨rfl, rfl⟩
    have hafter : After C sys.world w :=
      h.stock.shrink hmade fun p k hk => hk.of_file (by rw [hfiles])
    have hfile : w.files (chainPath dir) = sys.world.files (chainPath dir) := by rw [hfiles]
    have hticked : ErasureInv C dir { sys with world := w } := by
      refine ⟨hafter.stock, fun ch hch => (h.chain ch (hch.of_file hfile.symm)).after hafter,
        fun s' hs' => ?_⟩
      obtain ⟨hholder, ch, hreads, hkeys⟩ := h.signer s' hs'
      exact ⟨hholder.after (h.spent hs') hafter rfl rfl rfl rfl, ch, hreads.of_file hfile, hkeys⟩
    rcases hcases with heq | heq | ⟨rootPub, c, -, -, heq⟩
    · rw [heq]
      exact h.stopped hafter hfile
    · rw [heq]
      exact hticked
    · rw [heq]
      exact ⟨hticked.stock, hticked.chain, hticked.signer⟩

end

/-- **No old key survives a rotation**: in every run of a file-backed signer with crashes, in which
no rotation fails after it has published the certificate and no process dies there before the key
file is emptied, no private key of an epoch before the active one can be recovered. -/
theorem old_keys_erased (C : Crypto) (dir : Bytes) {as : List Action}
    (has : Along (step C dir) (Wiped C dir) Sys.init as) {s : Signer}
    (hs : (run (step C dir) Sys.init as).signer = some s) {e : Nat}
    (he : s.chain.activeEpoch = .ok e) {cert : RotationCert} (hcert : some cert ∈ s.chain.certs)
    (hlt : cert.epoch < e) {p k : Bytes}
    (hk : Recovers (run (step C dir) Sys.init as).world p k) : C.edPublic k ≠ cert.publicKey := by
  have hnone : ∀ p k, ¬ Recovers Sys.init.world p k := fun p k => not_recovers_none rfl
  have hinit : ErasureInv C dir Sys.init := by
    refine ⟨⟨fun p k h => absurd h (hnone p k), fun p p' k k' h => absurd h (hnone p k)⟩, ?_, nofun⟩
    rintro ch ⟨j, hj, -⟩
    cases hj
  have hrun := along_invariant (fun sys a h ha => erasure_step a h ha) hinit has
  have hspent := hrun.spent hs
  intro heq
  unfold Chain.activeEpoch at he
  cases hlast : s.chain.certs.getLast? with
  | none =>
    rw [hlast, Except.ok.injEq] at he
    omega
  | some o =>
    cases o with
    | none =>
      rw [hlast] at he
      cases he
    | some last =>
      rw [hlast, Except.ok.injEq] at he
      rcases (Chain.keys_last hlast).2 cert hcert with rfl | hold
      · omega
      · exact hspent.gone p k hk (heq ▸ hold)

def cutRun (n : Nat) : List Action :=
  [.start (lit "log") (.file sampleDir false) none (genesisChoices 1 10),
    .rotate ((rotateChoices 2 20).take n),
    .start (lit "log") (.file sampleDir false) none [{}, {}, {}, {}],
    .rotate (rotateChoices 3 30)]

theorem old_keys_erased_cut :
    ∃ s last, (run (step paired sampleDir) Sys.init (cutRun 16)).signer = some s ∧
      s.chain.certs.getLast? = some (some last) ∧ last.epoch = 2 ∧
      ∀ cert, some cert ∈ s.chain.certs → cert.epoch < 2 → ∀ p k,
        Recovers (run (step paired sampleDir) Sys.init (cutRun 16)).world p k →
          paired.edPublic k ≠ cert.publicKey := by
  have has : Along (step paired sampleDir) (Wiped paired sampleDir) Sys.init (cutRun 16) := by
    decide +kernel
  have hepoch : (run (step paired sampleDir) Sys.init (cutRun 16)).signer.bind
      (fun s => s.chain.certs.getLast?.join.map RotationCert.epoch) = some 2 := by
    decide +kernel
  obtain ⟨s, hs, hlast⟩ := bind_eq_some_iff.mp hepoch
  obtain ⟨last, hlast, heq⟩ := map_eq_some_iff.mp hlast
  have hlast : s.chain.certs.getLast? = some (some last) := join_eq_some_iff.mp hlast
  refine ⟨s, last, hs, hlast, heq, fun cert hcert hlt p k hk => ?_⟩
  exact old_keys_erased paired sampleDir has hs
    (by rw [Chain.activeEpoch, hlast, ← heq]) hcert hlt hk

def World.recover (w : World) (p : Bytes) : Option Bytes :=
  match w.files p with
  | some (.text t) => Keys.recover t
  | _ => none

lemma World.recovers {w : World} {p k : Bytes} (h : w.recover p = some k) : Recovers w p k := by
  unfold World.recover at h
  split at h
  · rename_i t ht
    exact ⟨t, ht, .inl h⟩
  · cases h

/-- **A crash can leave the old key for good**: the process dies after it has published epoch 1 and
before it erases the key of epoch 0. After a restart and another rotation the file of that key is
still there. -/
theorem crash_leaves_old_key :
    ((run (step paired sampleDir) Sys.init (cutRun 12)).signer.map fun s =>
      (s.chain.activeEpoch.toOption, (s.chain.publicKeyAt 0).toOption.join)) =
      some (some 2, some (paired.edPublic (keyOf 1))) ∧
    Recovers (run (step paired sampleDir) Sys.init (cutRun 12)).world
      (join sampleDir (keyName 10 0)) (keyOf 1) := by
  constructor
  · decide +kernel
  · exact World.recovers (by decide +kernel)

end Keys

end Stele
