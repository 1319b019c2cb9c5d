import Stele.Threshold.Multisig

/-!
# Group digests (`pkg/threshold`)

`Canonical` sorts the members by ID and writes length-prefixed fields. The IDs of a group that
passes `Validate` differ, so the sorted list does not depend on the order of the members, and the
fields can be read back.
-/

namespace Stele

open Lib List Member

def Member.terms (m : Member) : Bytes × Bytes × Bytes := (m.id, m.publicKey, m.quantumPublicKey)

namespace Group

/-! ## The order of the members -/

lemma bytesLe_total (x y : Bytes) : bytesLe x y = true ∨ bytesLe y x = true := by
  induction x generalizing y with
  | nil => exact .inl rfl
  | cons a x ih =>
    cases y with
    | nil => exact .inr rfl
    | cons b y =>
      by_cases hab : a = b
      · subst hab
        simpa [bytesLe] using ih y
      · have hlt : a < b ∨ b < a := by grind
        simpa [bytesLe, hab, Ne.symm hab] using hlt

lemma bytesLe_antisymm {x y : Bytes} (h : bytesLe x y = true) (h' : bytesLe y x = true) :
    x = y := by
  induction x generalizing y with
  | nil =>
    cases y with
    | nil => rfl
    | cons => cases h'
  | cons a x ih =>
    cases y with
    | nil => cases h
    | cons b =>
      by_cases hab : a = b
      · subst hab
        simp only [bytesLe, ↓reduceIte] at h h'
        rw [ih h h']
      · simp only [bytesLe, if_neg hab, if_neg (Ne.symm hab), decide_eq_true_eq] at h h'
        grind

lemma bytesLe_trans {x y z : Bytes} (h : bytesLe x y = true) (h' : bytesLe y z = true) :
    bytesLe x z = true := by
  induction x generalizing y z with
  | nil => rfl
  | cons a x ih =>
    cases y with
    | nil => cases h
    | cons b =>
      cases z with
      | nil => cases h'
      | cons c =>
        simp only [bytesLe] at h h' ⊢
        by_cases hab : a = b
        · subst hab
          rw [if_pos rfl] at h
          split
          · rename_i hac
            rw [if_pos hac] at h'
            exact ih h h'
          · rename_i hac
            rwa [if_neg hac] at h'
        · rw [if_neg hab, decide_eq_true_eq] at h
          by_cases hbc : b = c
          · subst hbc
            rw [if_neg hab, decide_eq_true_eq]
            exact h
          · rw [if_neg hbc, decide_eq_true_eq] at h'
            have hac : a ≠ c := by grind
            rw [if_neg hac, decide_eq_true_eq]
            grind

abbrev idLe (a b : Member) : Prop := bytesLe a.id b.id = true

instance : Std.Total idLe := ⟨fun a b => bytesLe_total a.id b.id⟩

instance : IsTrans Member idLe := ⟨fun _ _ _ => bytesLe_trans⟩

/-! ## Reading the members back -/

def MembersFit (ms : List Member) : Prop :=
  ∀ m ∈ ms, m.id.length < 2 ^ 32 ∧ m.publicKey.length < 2 ^ 32 ∧ m.quantumPublicKey.length < 2 ^ 32

lemma encodeMember_append_inj {m m' : Member} {x y : Bytes} (hm : MembersFit [m])
    (hm' : MembersFit [m']) (h : encodeMember m ++ x = encodeMember m' ++ y) :
    m.terms = m'.terms ∧ x = y := by
  obtain ⟨hid, hpub, hq⟩ := hm m (by simp)
  obtain ⟨hid', hpub', hq'⟩ := hm' m' (by simp)
  simp only [encodeMember, append_assoc] at h
  obtain ⟨h1, h⟩ := put_append_inj hid hid' h
  obtain ⟨h2, h⟩ := put_append_inj hpub hpub' h
  obtain ⟨h3, h⟩ := put_append_inj hq hq' h
  exact ⟨by rw [terms, terms, h1, h2, h3], h⟩

lemma encodeMembers_inj {ms ms' : List Member} (hms : MembersFit ms) (hms' : MembersFit ms')
    (hlen : ms.length = ms'.length)
    (h : (ms.map encodeMember).flatten = (ms'.map encodeMember).flatten) :
    ms.map terms = ms'.map terms := by
  induction ms generalizing ms' with
  | nil =>
    cases ms' with
    | nil => rfl
    | cons => cases hlen
  | cons m ms ih =>
    cases ms' with
    | nil => cases hlen
    | cons =>
      simp only [MembersFit, forall_mem_cons] at hms hms'
      simp only [map_cons, flatten_cons] at h
      obtain ⟨hterms, hrest⟩ := encodeMember_append_inj (by simpa [MembersFit] using hms.1)
        (by simpa [MembersFit] using hms'.1) h
      rw [map_cons, map_cons, hterms, ih hms.2 hms'.2 (by simpa using hlen) hrest]

lemma encodeMembers_congr {ms ms' : List Member}
    (h : ms.map terms = ms'.map terms) :
    (ms.map encodeMember).flatten = (ms'.map encodeMember).flatten := by
  have henc : ∀ l : List Member, l.map encodeMember =
      (l.map terms).map fun t => put t.1 ++ put t.2.1 ++ put t.2.2 := by
    intro l
    rw [map_map]
    rfl
  rw [henc, henc, h]

/-! ## Groups with one canonical form -/

structure Fits (g : Group) : Prop where
  origin : g.origin.length < 2 ^ 32
  createdAt : IsInt64 g.createdAt
  members : g.members.length < 2 ^ 32
  id : ∀ m, some m ∈ g.members → m.id.length < 2 ^ 32
  quantumPublicKey : ∀ m, some m ∈ g.members → m.quantumPublicKey.length < 2 ^ 32

def memberTerms (g : Group) : Set (Bytes × Bytes × Bytes) :=
  {t | ∃ m, some m ∈ g.members ∧ m.terms = t}

structure SameTerms (g g' : Group) : Prop where
  version : g.version = g'.version
  origin : g.origin = g'.origin
  threshold : g.threshold = g'.threshold
  createdAt : g.createdAt = g'.createdAt
  members : g.memberTerms = g'.memberTerms

variable {g g' : Group} {ms ms' : List Member}

namespace WellFormed

variable (h : g.WellFormed ms) (h' : g'.WellFormed ms')

lemma mapM_some (ms : List Member) : (ms.map some).mapM (m := Option) id = some ms := by
  induction ms with
  | nil => rfl
  | cons m ms ih => simp [ih]

include h in
lemma canonical_eq : g.canonical = .ok (be 4 g.version ++ put g.origin ++ be 4 g.threshold ++
    be 8 (u64 g.createdAt) ++ be 4 (ms.insertionSort idLe).length ++
    ((ms.insertionSort idLe).map encodeMember).flatten) := by
  unfold canonical
  rw [h.members, mapM_some]

include h in
lemma mem_memberTerms {t : Bytes × Bytes × Bytes} :
    t ∈ g.memberTerms ↔ t ∈ ms.map terms := by
  simp [memberTerms, h.members]

include h in
lemma membersFit (hfit : g.Fits) : MembersFit (ms.insertionSort idLe) := by
  intro m hm
  have hmem : m ∈ ms := (mem_insertionSort idLe).mp hm
  have hsome : some m ∈ g.members := by
    rw [h.members]
    exact mem_map_of_mem hmem
  refine ⟨hfit.id m hsome, ?_, hfit.quantumPublicKey m hsome⟩
  rw [h.key_length m hmem]
  decide

include h in
lemma sizes (hfit : g.Fits) : g.version < 256 ^ 4 ∧ g.threshold < 256 ^ 4 ∧
    (ms.insertionSort idLe).length < 256 ^ 4 := by
  have hlen := hfit.members
  rw [h.members, length_map] at hlen
  have hle := h.threshold_le
  rw [length_insertionSort, h.version]
  omega

include h in
lemma eq_of_id {m n : Member} (hm : m ∈ ms) (hn : n ∈ ms) (hid : m.id = n.id) : m = n :=
  inj_on_of_nodup_map h.id_nodup hm hn hid

include h in
lemma terms_nodup : (ms.map terms).Nodup := by
  have hid : ((ms.map terms).map Prod.fst).Nodup := by
    rw [map_map]
    exact h.id_nodup
  exact hid.of_map

include h h' in
/-- **Sorted by ID, the members of two groups with one set of terms are the same list of terms.** -/
theorem sorted_terms (hset : g.memberTerms = g'.memberTerms) :
    (ms.insertionSort idLe).map terms = (ms'.insertionSort idLe).map terms := by
  have hmem : ∀ t, t ∈ ms.map terms ↔ t ∈ ms'.map terms := by
    intro t
    rw [← h.mem_memberTerms, hset, h'.mem_memberTerms]
  have hperm : ((ms.insertionSort idLe).map terms).Perm
      ((ms'.insertionSort idLe).map terms) :=
    calc ((ms.insertionSort idLe).map terms).Perm (ms.map terms) :=
          (perm_insertionSort idLe ms).map _
      _ |>.Perm (ms'.map terms) := (perm_ext_iff_of_nodup h.terms_nodup h'.terms_nodup).mpr hmem
      _ |>.Perm ((ms'.insertionSort idLe).map terms) := ((perm_insertionSort idLe ms').map _).symm
  have hsorted : ∀ l : List Member, ((l.insertionSort idLe).map terms).Pairwise
      fun t u => bytesLe t.1 u.1 = true :=
    fun l => pairwise_map.mpr (pairwise_insertionSort idLe l)
  refine hperm.eq_of_pairwise (fun t u ht hu htu hut => ?_) (hsorted ms) (hsorted ms')
  -- the IDs of one group tell its members apart
  have hid := bytesLe_antisymm htu hut
  have ht' : t ∈ ms.map terms := ((perm_insertionSort idLe ms).map _).subset ht
  have hu' : u ∈ ms.map terms := (hmem u).mpr (((perm_insertionSort idLe ms').map _).subset hu)
  obtain ⟨m, hm, rfl⟩ := mem_map.mp ht'
  obtain ⟨n, hn, rfl⟩ := mem_map.mp hu'
  rw [h.eq_of_id hm hn hid]

include h h' in
/-- **Two groups have one canonical form exactly when they have the same terms.** -/
theorem canonical_iff (hfit : g.Fits) (hfit' : g'.Fits) :
    g.canonical = g'.canonical ↔ SameTerms g g' := by
  rw [h.canonical_eq, h'.canonical_eq, Except.ok.injEq]
  constructor
  · intro heq
    obtain ⟨hversion, hthreshold, hlength⟩ := h.sizes hfit
    obtain ⟨hversion', hthreshold', hlength'⟩ := h'.sizes hfit'
    simp only [append_assoc] at heq
    obtain ⟨hv, heq⟩ := be_append_inj hversion hversion' heq
    obtain ⟨ho, heq⟩ := put_append_inj hfit.origin hfit'.origin heq
    obtain ⟨ht, heq⟩ := be_append_inj hthreshold hthreshold' heq
    obtain ⟨hc, heq⟩ := be_append_inj (u64_lt _) (u64_lt _) heq
    obtain ⟨hl, heq⟩ := be_append_inj hlength hlength' heq
    refine ⟨hv, ho, ht, u64_inj hfit.createdAt hfit'.createdAt hc, ?_⟩
    have hterms := encodeMembers_inj (h.membersFit hfit) (h'.membersFit hfit') hl heq
    have hperm := ((perm_insertionSort idLe ms).map terms).symm.trans
      (hterms ▸ (perm_insertionSort idLe ms').map terms)
    ext t
    rw [h.mem_memberTerms, h'.mem_memberTerms, hperm.mem_iff]
  · intro hsame
    have hterms := h.sorted_terms h' hsame.members
    have hl : (ms.insertionSort idLe).length = (ms'.insertionSort idLe).length := by
      simpa using congrArg List.length hterms
    rw [hsame.version, hsame.origin, hsame.threshold, hsame.createdAt, hl,
      encodeMembers_congr hterms]

end WellFormed

/-! ## The verdict on signatures -/

section
variable {C : Crypto}

lemma SameTerms.memberByID (h : g.WellFormed ms) (h' : g'.WellFormed ms')
    (hsame : SameTerms g g') (id : Bytes) :
    (∃ m m', g.memberByID id = .ok (some m) ∧ g'.memberByID id = .ok (some m') ∧
      m.terms = m'.terms) ∨ g.memberByID id = .ok none ∧ g'.memberByID id = .ok none := by
  have hmem : ∀ t, t ∈ ms.map terms ↔ t ∈ ms'.map terms := by
    intro t
    rw [← h.mem_memberTerms, hsame.members, h'.mem_memberTerms]
  rcases h.memberByID_cases id with ⟨m, hm, rfl, hlook⟩ | ⟨hid, hlook⟩
  · obtain ⟨m', hm', hterms⟩ := mem_map.mp ((hmem _).mp (mem_map_of_mem hm))
    have hids : m'.id = m.id := congrArg Prod.fst hterms
    exact .inl ⟨m, m', hlook, hids ▸ h'.memberByID_eq hm', hterms.symm⟩
  · rcases h'.memberByID_cases id with ⟨m', hm', rfl, -⟩ | ⟨-, hlook'⟩
    · obtain ⟨m, hm, hterms⟩ := mem_map.mp ((hmem _).mpr (mem_map_of_mem hm'))
      have hids : m.id = m'.id := congrArg Prod.fst hterms
      exact absurd (hids ▸ mem_map_of_mem hm) hid
    · exact .inr ⟨hlook, hlook'⟩

lemma SameTerms.judge_eq (h : g.WellFormed ms) (h' : g'.WellFormed ms')
    (hsame : SameTerms g g') (msg : Bytes) (s : MemberSig) :
    judge C g msg s = judge C g' msg s := by
  unfold judge
  rcases hsame.memberByID h h' s.memberID with ⟨m, m', hlook, hlook', hterms⟩ | ⟨hlook, hlook'⟩
  · have hpub : m.publicKey = m'.publicKey := congrArg (fun t => t.2.1) hterms
    have hq : m.quantumPublicKey = m'.quantumPublicKey := congrArg (fun t => t.2.2) hterms
    rw [hlook, hlook', ok_bind, ok_bind]
    simp only [hpub, hq]
  · rw [hlook, hlook']

lemma SameTerms.tallySigs_eq (h : g.WellFormed ms) (h' : g'.WellFormed ms')
    (hsame : SameTerms g g') (msg : Bytes) (t : Tally) (sigs : List (Option MemberSig)) :
    tallySigs C g msg t sigs = tallySigs C g' msg t sigs := by
  induction sigs generalizing t with
  | nil => rfl
  | cons o sigs ih =>
    cases o with
    | none => exact ih t
    | some => simp only [tallySigs, hsame.judge_eq h h', ih]

lemma SameTerms.verifyMulti_eq (hg : validate (some g) = .ok ())
    (hg' : validate (some g') = .ok ()) (hsame : SameTerms g g') (msg : Bytes)
    (sigs : List (Option MemberSig)) :
    verifyMulti C (some g) msg sigs = verifyMulti C (some g') msg sigs := by
  obtain ⟨ms, h⟩ := validate_ok.mp hg
  obtain ⟨ms', h'⟩ := validate_ok.mp hg'
  simp only [verifyMulti, hg, hg', hsame.tallySigs_eq h h', hsame.threshold]

end

/-- **A group's digest identifies the group.** The canonical forms of two groups that pass
`Validate` are equal exactly when the groups have the same terms. So when the hash tells the two
forms apart, groups with one digest give every list of signatures on every message the same
result. -/
theorem digest_identifies_group (C : Crypto) (g g' : Group) (hg : validate (some g) = .ok ())
    (hg' : validate (some g') = .ok ()) (hfit : g.Fits) (hfit' : g'.Fits) :
    (g.canonical = g'.canonical ↔ SameTerms g g') ∧
    ∃ form form', g.canonical = .ok form ∧ g'.canonical = .ok form' ∧
      (C.CollisionFree [form, form'] → g.digest C = g'.digest C →
        ∀ msg sigs, verifyMulti C (some g) msg sigs = verifyMulti C (some g') msg sigs) := by
  obtain ⟨ms, h⟩ := validate_ok.mp hg
  obtain ⟨ms', h'⟩ := validate_ok.mp hg'
  refine ⟨h.canonical_iff h' hfit hfit', _, _, h.canonical_eq, h'.canonical_eq, ?_⟩
  intro hfree hdigest
  simp only [digest, h.canonical_eq, h'.canonical_eq, ok_bind] at hdigest
  have hforms := hfree _ (by simp) _ (by simp) (Except.ok.inj hdigest)
  have hsame : SameTerms g g' := by
    rw [← h.canonical_iff h' hfit hfit', h.canonical_eq, h'.canonical_eq, hforms]
  exact hsame.verifyMulti_eq hg hg'

def sampleMembers : List Member :=
  [{ id := lit "a", publicKey := List.replicate 32 1 },
    { id := lit "b", publicKey := List.replicate 32 2, quantumPublicKey := [3] }]

def sampleGroup (members : List Member) : Group where
  version := 1
  origin := lit "log"
  members := members.map some
  threshold := 1
  createdAt := 5

lemma sampleGroup_fits {members : List Member} (hlen : members.length = 2)
    (hsub : ∀ m ∈ members, m.id.length < 5 ∧ m.quantumPublicKey.length < 5) :
    (sampleGroup members).Fits where
  origin := show (lit "log").length < 2 ^ 32 by decide
  createdAt := show IsInt64 5 by decide
  members := by
    rw [sampleGroup, length_map, hlen]
    decide
  id m hm := by
    obtain ⟨n, hn, heq⟩ := mem_map.mp hm
    cases heq
    exact (hsub m hn).1.trans (by decide)
  quantumPublicKey m hm := by
    obtain ⟨n, hn, heq⟩ := mem_map.mp hm
    cases heq
    exact (hsub m hn).2.trans (by decide)

theorem digest_identifies_group_reordered :
    let g := sampleGroup sampleMembers
    let g' := sampleGroup (sampleMembers.reverse.map ({ · with endpoint := lit "e" }))
    g ≠ g' ∧ g.canonical = g'.canonical ∧
      ∀ msg sigs,
        verifyMulti .sample (some g) msg sigs = verifyMulti .sample (some g') msg sigs := by
  have hcanon : (sampleGroup sampleMembers).canonical =
      (sampleGroup (sampleMembers.reverse.map ({ · with endpoint := lit "e" }))).canonical := by
    rfl
  obtain ⟨-, form, form', hform, hform', hverdict⟩ := digest_identifies_group .sample
    (sampleGroup sampleMembers)
    (sampleGroup (sampleMembers.reverse.map ({ · with endpoint := lit "e" }))) (by rfl) (by rfl)
    (sampleGroup_fits rfl (by decide)) (sampleGroup_fits rfl (by decide))
  have hforms : form = form' := Except.ok.inj (hform.symm.trans (hcanon.trans hform'))
  refine ⟨by decide, hcanon, hverdict ?_ ?_⟩
  · subst hforms
    intro a ha b hb _
    simp only [mem_cons, not_mem_nil, or_false, or_self] at ha hb
    rw [ha, hb]
  · rw [digest, digest, hcanon]

end Group

end Stele
