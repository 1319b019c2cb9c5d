import Stele.Keys.KeyStore

/-!
# What the token store leaves behind

The programs of `PKCS11KeyStore`, as `KeyStore` has it for files: `safe_generateHsm`,
`safe_loadHsm`, `safe_destroyHsm`. The objects of a key pair are created together; after that an
object can only disappear (`World.Lost`). `safe_sign` is for both stores: a key signs with the
private key it `Holds`.
-/

namespace Stele.Keys

open Lib Prog List

lemma decodePoint_point {pub : Bytes} (h : pub.length = edPublicKeySize) (der : Bool) :
    decodePoint (if der = true then 4 :: 32 :: pub else pub) = .ok pub := by
  have hne : pub ≠ [] := by
    rintro rfl
    cases h
  cases der with
  | false => simp [decodePoint, h, hne]
  | true =>
    have hlen : (4 :: 32 :: pub).length ≠ edPublicKeySize := by
      rw [length_cons, length_cons, h]
      decide
    simp only [↓reduceIte]
    rw [decodePoint, if_neg (cons_ne_nil _ _), if_neg hlen]
    simp only [if_pos h.ge, take_of_length_le h.le]

namespace World

def addPair (w : World) (pub : Bytes) (o1 o2 : Option Object) : World :=
  { w.make pub [] with objects := w.objects ++ [o1, o2] }

structure Lost (hs : List Nat) (w w' : World) : Prop where
  rest : ∃ objs, w' = { w with objects := objs }
  length : w'.objects.length = w.objects.length
  object : ∀ h, w'.object h = w.object h ∨ h ∈ hs ∧ w'.object h = none

namespace Lost

variable {hs : List Nat} {w w' w'' : World}

lemma refl (hs : List Nat) (w : World) : Lost hs w w := ⟨⟨_, rfl⟩, rfl, fun _ => .inl rfl⟩

lemma trans (h : Lost hs w w') (h' : Lost hs w' w'') : Lost hs w w'' where
  rest := by
    obtain ⟨objs, rfl⟩ := h.rest
    obtain ⟨objs', rfl⟩ := h'.rest
    exact ⟨objs', rfl⟩
  length := h'.length.trans h.length
  object x := by
    rcases h'.object x with heq | hgone
    · rw [heq]
      exact h.object x
    · exact .inr hgone

lemma was (h : Lost hs w w') {x : Nat} {o : Object} (hx : w'.object x = some o) :
    w.object x = some o := by
  rcases h.object x with heq | ⟨-, hnone⟩
  · rw [← heq]
    exact hx
  · rw [hnone] at hx
    cases hx

lemma set {x : Nat} (hx : x ∈ hs) (w : World) :
    Lost hs w { w with objects := w.objects.set x none } where
  rest := ⟨_, rfl⟩
  length := length_set
  object y := by
    by_cases hxy : x = y
    · subst hxy
      refine .inr ⟨hx, ?_⟩
      by_cases hlen : x < w.objects.length
      · simp [World.object, hlen]
      · simp [World.object, hlen]
    · exact .inl (by simp [World.object, hxy])

end Lost

end World

def LiveKey.privateObject : LiveKey → Option Nat
  | .file _ => none
  | .hsm k => some k.privObj

def LiveKey.Holds (w : World) : LiveKey → Bytes → Prop
  | .file k, priv => k.priv = some priv
  | .hsm k, priv => ∃ o, w.object k.privObj = some o ∧ o.cls = .privateKey ∧ o.value = priv

variable {C : Crypto} {ok : Op → World → Choice → Prop}

/-- How `Sign` may end: nothing changes, and the signature is by the key it holds. A file key that
was not destroyed does sign. -/
structure SignDone (C : Crypto) (key : LiveKey) (msg : Bytes) (w : World) (res : Res Bytes)
    (w' : World) : Prop where
  world : w' = w
  signed : ∀ sig, res = .ok sig → ∃ priv, key.Holds w priv ∧ sig = C.edSign priv msg
  ready : ∀ k, key = .file k → k.priv.isSome → ∃ sig, res = .ok sig

lemma safe_sign (key : LiveKey) (msg : Bytes) (w : World) :
    Safe (perform C) ok (fun _ w1 => w1 = w) (SignDone C key msg w) (key.sign C msg) w := by
  cases key with
  | file k =>
    cases hpriv : k.priv with
    | none =>
      simp only [LiveKey.sign, hpriv]
      refine (safe_pure _).mpr ⟨rfl, nofun, fun k' hk' hsome => ?_⟩
      cases hk'
      rw [hpriv] at hsome
      cases hsome
    | some priv =>
      simp only [LiveKey.sign, hpriv]
      refine (safe_pure _).mpr ⟨rfl, fun sig h => ⟨priv, hpriv, ?_⟩, fun _ _ _ => ⟨_, rfl⟩⟩
      cases h
      rfl
  | hsm k =>
    have hfail : ∀ e, SignDone C (.hsm k) msg w (.error e) w := fun e => ⟨rfl, nofun, nofun⟩
    refine safe_call_bind.mpr ⟨rfl, fun r hr => ?_⟩
    cases herr : r.err with
    | some =>
      simp only [perform, herr]
      exact hfail _
    | none =>
      cases hobj : w.object k.privObj with
      | none =>
        simp only [perform, herr, hobj]
        exact hfail _
      | some o =>
        cases hcls : o.cls with
        | publicKey =>
          simp only [perform, herr, hobj, hcls]
          exact hfail _
        | privateKey =>
          simp only [perform, herr, hobj, hcls]
          refine safe_call_bind.mpr ⟨rfl, fun r1 hr1 => ?_⟩
          cases herr1 : r1.err with
          | some =>
            simp only [perform, herr1]
            exact hfail _
          | none =>
            simp only [perform, herr1, hobj]
            refine (safe_pure _).mpr ⟨rfl, fun sig h => ⟨o.value, ⟨o, hobj, hcls, rfl⟩, ?_⟩, nofun⟩
            cases h
            rfl

lemma destroyObject_lost {hs : List Nat} {x : Nat} (hx : x ∈ hs) {w : World} {r : Choice}
    (hr : ok (.destroyObject x) w r) :
    w.Lost hs (perform C (.destroyObject x) w r).1 ∧
      ((perform C (.destroyObject x) w r).1.object x = none ∨ Fails ok (.destroyObject x)) := by
  cases herr : r.err with
  | some =>
    simp only [perform, herr]
    exact ⟨.refl hs w, .inr ⟨w, r, hr, by simp [herr]⟩⟩
  | none =>
    cases hobj : w.object x with
    | none =>
      simp only [perform, herr, hobj]
      exact ⟨.refl hs w, .inl trivial⟩
    | some =>
      simp only [perform, herr, hobj]
      have hlost := World.Lost.set hx w
      refine ⟨hlost, .inl ?_⟩
      rcases hlost.object x with heq | hgone
      · by_cases hlen : x < w.objects.length
        · simp [World.object, hlen]
        · simp [World.object, hlen]
      · exact hgone.2

/-- **`hsmLiveKey.Destroy`**: the private object is gone, unless the call for it fails. -/
theorem safe_destroyHsm (k : HsmKey) (w : World) :
    Safe (perform C) ok (fun _ w1 => w.Lost [k.privObj, k.pubObj] w1)
      (fun res w' => res.1 = .hsm k ∧ w.Lost [k.privObj, k.pubObj] w' ∧
        (w'.object k.privObj = none ∨ Fails ok (.destroyObject k.privObj)))
      (LiveKey.hsm k).destroy w := by
  refine safe_call_bind.mpr ⟨.refl _ w, fun r hr => ?_⟩
  obtain ⟨hlost, hgone⟩ := @destroyObject_lost C ok [k.privObj, k.pubObj] _ (by simp) _ _ hr
  refine safe_call_bind.mpr ⟨hlost, fun r1 hr1 => ?_⟩
  obtain ⟨hlost1, -⟩ := @destroyObject_lost C ok [k.privObj, k.pubObj] k.pubObj (by simp) _ _ hr1
  refine ⟨rfl, hlost.trans hlost1, ?_⟩
  rcases hgone with hgone | hfails
  · refine .inl ?_
    rcases hlost1.object k.privObj with heq | hnone
    · rw [heq]
      exact hgone
    · exact hnone.2
  · exact .inr hfails

lemma safe_readPublicKey (obj : Nat) (w : World) :
    Safe (perform C) ok (fun _ w1 => w1 = w)
      (fun res w' => w' = w ∧ ∀ pub, res = .ok pub → ∃ o der, w.object obj = some o ∧
        o.cls = .publicKey ∧
        decodePoint (if der = true then 4 :: 32 :: o.value else o.value) = .ok pub)
      (readPublicKey obj) w := by
  refine safe_call_bind.mpr ⟨rfl, fun r hr => ?_⟩
  cases herr : r.err with
  | some =>
    simp only [perform, herr]
    exact ⟨rfl, fun pub h => by cases h⟩
  | none =>
    cases hobj : w.object obj with
    | none =>
      simp only [perform, herr, hobj]
      exact ⟨rfl, fun pub h => by cases h⟩
    | some o =>
      cases hcls : o.cls with
      | privateKey =>
        simp only [perform, herr, hobj, hcls]
        exact ⟨rfl, fun pub h => by cases h⟩
      | publicKey =>
        simp only [perform, herr, hobj, hcls]
        exact ⟨rfl, fun pub h => ⟨o, r.der, rfl, hcls, h⟩⟩

lemma mem_handles {w : World} {label : Bytes} {cls : ObjectClass} {h : Nat}
    (hmem : h ∈ w.handles label cls) :
    ∃ o, w.object h = some o ∧ o.label = label ∧ o.cls = cls := by
  obtain ⟨-, hobj⟩ := mem_filter.mp hmem
  cases ho : w.object h with
  | none => simp [ho] at hobj
  | some o => exact ⟨o, rfl, by simpa [ho] using hobj⟩

lemma safe_findOne (label : Bytes) (cls : ObjectClass) (w : World) :
    Safe (perform C) ok (fun _ w1 => w1 = w)
      (fun res w' => w' = w ∧ ∀ h, res = .ok h → ∃ o, w.object h = some o ∧ o.label = label ∧
        o.cls = cls) (findOne label cls) w := by
  refine safe_call_bind.mpr ⟨rfl, fun r hr => ?_⟩
  cases herr : r.err with
  | some =>
    simp only [perform, herr]
    exact ⟨rfl, fun h hh => by cases hh⟩
  | none =>
    simp only [perform, herr]
    split
    · exact ⟨rfl, fun h hh => by cases hh⟩
    · rename_i obj hobj
      refine ⟨rfl, fun h hh => ?_⟩
      cases hh
      rw [Except.ok.injEq] at hobj
      exact mem_handles (mem_of_mem_take (by rw [hobj]; simp))
    · exact ⟨rfl, fun h hh => by cases hh⟩
    · exact ⟨rfl, fun h hh => by cases hh⟩

lemma safe_loadHsm (label : Bytes) (w : World) :
    Safe (perform C) ok (fun _ w1 => w1 = w)
      (fun res w' => w' = w ∧ ∀ key, res = .ok key → ∃ k priv pub der, key = .hsm k ∧
        w.object k.privObj = some priv ∧ priv.label = label ∧ priv.cls = .privateKey ∧
        w.object k.pubObj = some pub ∧ pub.label = label ∧ pub.cls = .publicKey ∧
        decodePoint (if der = true then 4 :: 32 :: pub.value else pub.value) = .ok k.pubKey)
      (loadHsm label) w := by
  refine (safe_findOne label .privateKey w).bind (fun _ _ h => h) ?_
  rintro (e | privObj) w1 ⟨rfl, hpriv⟩
  · exact ⟨rfl, nofun⟩
  refine (safe_findOne label .publicKey w1).bind (fun _ _ h => h) ?_
  rintro (e | pubObj) w2 ⟨rfl, hpub⟩
  · exact ⟨rfl, nofun⟩
  refine (safe_readPublicKey pubObj w2).bind (fun _ _ h => h) ?_
  rintro (e | pubKey) w3 ⟨rfl, hread⟩
  · exact ⟨rfl, nofun⟩
  refine (safe_pure _).mpr ⟨rfl, fun key h => ?_⟩
  cases h
  obtain ⟨priv, hprivObj, hprivLabel, hprivCls⟩ := hpriv _ rfl
  obtain ⟨pub, hpubObj, hpubLabel, hpubCls⟩ := hpub _ rfl
  obtain ⟨o, der, ho, -, hdec⟩ := hread _ rfl
  rw [hpubObj, Option.some.injEq] at ho
  subst ho
  exact ⟨_, priv, pub, der, rfl, hprivObj, hprivLabel, hprivCls, hpubObj, hpubLabel, hpubCls, hdec⟩

def Object.OrGone (o : Object) (x : Option Object) : Prop := x = some o ∨ x = none

/-- `PKCS11KeyStore.Generate` in the world `w` made this key pair; `w1` is a world after, with the
objects or what is left of them. -/
structure NewPair (C : Crypto) (ok : Op → World → Choice → Prop) (keyPrefix : Bytes) (w : World)
    (label : Bytes) (priv : EdKey) (w1 : World) : Prop where
  named : ∃ r, ok .randHex w r ∧ label = keyPrefix ++ lit "-epoch-" ++ hex (Crypto.fit 8 r.bytes)
  chosen : ∃ r, ok (.generateKeyPair label) w r ∧ r.edKey = priv
  world : ∃ o1 o2, Object.OrGone ⟨label, .publicKey, C.edPublic priv⟩ o1 ∧
    Object.OrGone ⟨label, .privateKey, priv⟩ o2 ∧ w1 = w.addPair (C.edPublic priv) o1 o2

inductive GenHsmDone (C : Crypto) (ok : Op → World → Choice → Prop) (keyPrefix : Bytes)
    (w : World) : Res LiveKey → World → Prop
  | noPair {e : Fault} : GenHsmDone C ok keyPrefix w (.error e) w
  | unread {e : Fault} {label : Bytes} {priv : EdKey} {w1 : World}
      (hnew : NewPair C ok keyPrefix w label priv w1) : GenHsmDone C ok keyPrefix w (.error e) w1
  | done {label : Bytes} {priv : EdKey} {w1 : World} {pubKey : Bytes} {der : Bool}
      (hnew : NewPair C ok keyPrefix w label priv w1)
      (hpub : decodePoint (if der = true then 4 :: 32 :: C.edPublic priv else C.edPublic priv) =
        .ok pubKey) :
      GenHsmDone C ok keyPrefix w
        (.ok (.hsm ⟨w.objects.length + 1, w.objects.length, pubKey, label⟩)) w1

lemma addPair_object_old {w : World} {pub : Bytes} {o1 o2 : Option Object} {h : Nat}
    (hlt : h < w.objects.length) : (w.addPair pub o1 o2).object h = w.object h := by
  simp [World.object, World.addPair, getElem?_append_left hlt]

lemma addPair_object_pub (w : World) (pub : Bytes) (o1 o2 : Option Object) :
    (w.addPair pub o1 o2).object w.objects.length = o1 := by
  simp [World.object, World.addPair]

lemma addPair_object_priv (w : World) (pub : Bytes) (o1 o2 : Option Object) :
    (w.addPair pub o1 o2).object (w.objects.length + 1) = o2 := by
  simp [World.object, World.addPair]

lemma destroy_newPair {keyPrefix label : Bytes} {w w1 : World} {priv : EdKey}
    (hnew : NewPair C ok keyPrefix w label priv w1) (r : Choice) {h : Nat}
    (hh : h = w.objects.length ∨ h = w.objects.length + 1) :
    NewPair C ok keyPrefix w label priv (perform C (.destroyObject h) w1 r).1 := by
  obtain ⟨hnamed, hchosen, o1, o2, ho1, ho2, rfl⟩ := hnew
  refine ⟨hnamed, hchosen, ?_⟩
  cases herr : r.err with
  | some =>
    simp only [perform, herr]
    exact ⟨o1, o2, ho1, ho2, rfl⟩
  | none =>
    cases hobj : (w.addPair (C.edPublic priv) o1 o2).object h with
    | none =>
      simp only [perform, herr, hobj]
      exact ⟨o1, o2, ho1, ho2, rfl⟩
    | some =>
      simp only [perform, herr, hobj]
      rcases hh with rfl | rfl
      · exact ⟨none, o2, .inr rfl, ho2, by simp [World.addPair]⟩
      · exact ⟨o1, none, ho1, .inr rfl, by simp [World.addPair]⟩

lemma safe_generateHsm (keyPrefix : Bytes) (w : World) :
    Safe (perform C) ok
      (fun _ w1 => w1 = w ∨ ∃ label priv, NewPair C ok keyPrefix w label priv w1)
      (GenHsmDone C ok keyPrefix w) (generateHsm keyPrefix) w := by
  refine safe_call_bind.mpr ⟨.inl rfl, fun r hr => ?_⟩
  simp only [perform]
  refine safe_call_bind.mpr ⟨.inl rfl, fun r1 hr1 => ?_⟩
  cases herr1 : r1.err with
  | some =>
    simp only [perform, herr1]
    exact .noPair
  | none =>
    simp only [perform, herr1]
    have hnew : NewPair C ok keyPrefix w
        (keyPrefix ++ lit "-epoch-" ++ hex (Crypto.fit 8 r.bytes)) r1.edKey
        (w.addPair (C.edPublic r1.edKey) _ _) :=
      ⟨⟨r, hr, rfl⟩, ⟨r1, hr1, rfl⟩, _, _, .inl rfl, .inl rfl, rfl⟩
    refine (safe_readPublicKey w.objects.length _).bind
      (fun op w2 h => .inr ⟨_, _, by subst h; exact hnew⟩) ?_
    rintro (e | pubKey) w2 ⟨rfl, hread⟩
    · refine safe_call_bind.mpr ⟨.inr ⟨_, _, hnew⟩, fun r2 hr2 => ?_⟩
      have hnew2 := destroy_newPair hnew r2 (.inr rfl)
      refine safe_call_bind.mpr ⟨.inr ⟨_, _, hnew2⟩, fun r3 hr3 => ?_⟩
      exact .unread (destroy_newPair hnew2 r3 (.inl rfl))
    · obtain ⟨o, der, ho, -, hdec⟩ := hread pubKey rfl
      rw [show ({ w.make (C.edPublic r1.edKey) [] with objects := _ } : World).object
        w.objects.length = _ from addPair_object_pub w _ _ _, Option.some.injEq] at ho
      subst ho
      exact .done hnew hdec

end Stele.Keys
