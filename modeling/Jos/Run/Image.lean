/-
The image that `load_icode` builds. Each segment gets new pages over its rounded range, so a page that two
segments share keeps what the later one wrote to it and nothing of the earlier one.
-/
import Jos.Run.Loading
import Jos.Run.Wrap

namespace Jos

open Lib Kern

variable {b s s' : State} {M l l' : List Nat} {e : Slot} {d : Nat}

/-! ## All segments -/

/-- The LOAD segments. -/
def loadsOf (hs : List Proghdr) : List Proghdr := hs.filter fun ph => ph.pType = elfProgLoad

/-- The pages that `region_alloc` is asked for. -/
def pagesOf (hs : List Proghdr) : List Word := hs.flatMap fun ph => regionPages ph.pVa ph.pMemsz

/-- What segments write over memory `m`, one after the other. -/
def imageView (binary : Bytes) : List Proghdr → (Word → Option (BitVec 8)) → Word → Option (BitVec 8)
  | [], m => m
  | ph :: hs, m => imageView binary hs (segView binary ph m)

theorem Loading.segments (binary : Bytes) : ∀ (hs : List Proghdr) {l : List Nat} {s : State} {rest : List Word},
    Loading b M e d l s → (s.cpus s.cpunum).cr3 = page2pa d → (∀ ph ∈ loadsOf hs, ph.Fits) →
    framesFor (s.tabled e) (pagesOf (loadsOf hs) ++ rest) ≤ l.length →
    ∃ s', (hs.forM (loadSegment e binary)).run s = .ok () s' ∧
      Mapped b M e d s s' rest (imageView binary (loadsOf hs) (s.userByte e))
  | [], l, s, rest, h, _, _, hen => ⟨s, rfl, ⟨l, h, hen⟩, .refl s, rfl, fun _ => rfl⟩
  | ph :: hs, l, s, rest, h, hc, hf, hen => by
    by_cases hl : ph.pType = elfProgLoad
    · have hcons : loadsOf (ph :: hs) = ph :: loadsOf hs := List.filter_cons_of_pos (by simpa using hl)
      rw [hcons] at hf hen ⊢
      have hen' : framesFor (s.tabled e) (regionPages ph.pVa ph.pMemsz ++ (pagesOf (loadsOf hs) ++ rest)) ≤ l.length := by
        rw [← List.append_assoc]
        exact hen
      obtain ⟨s₁, hrun₁, ⟨l₁, h₁, hen₁⟩, hr₁, hc₁, hb₁⟩ := h.segment hc binary hl (hf ph (List.mem_cons_self ..)) hen'
      obtain ⟨s₂, hrun₂, h₂, hr₂, hc₂, hb₂⟩ := Loading.segments binary hs h₁ (Eq.trans hc₁ hc)
        (fun q hq => hf q (List.mem_cons_of_mem _ hq)) hen₁
      refine ⟨s₂, ?_, h₂, hr₁.trans hr₂, hc₁.trans hc₂, fun c => ?_⟩
      · rw [List.forM_eq_forM] at hrun₂ ⊢
        rw [List.forM_cons, run_bind_ok hrun₁, hrun₂]
      · rw [hb₂, show s₁.userByte e = segView binary ph (s.userByte e) from funext hb₁]
        rfl
    · have hcons : loadsOf (ph :: hs) = loadsOf hs := List.filter_cons_of_neg (by simpa using hl)
      rw [hcons] at hf hen ⊢
      obtain ⟨s₂, hrun₂, h₂⟩ := Loading.segments binary hs h hc hf hen
      refine ⟨s₂, ?_, h₂⟩
      have hskip : (loadSegment e binary ph).run s = .ok () s := by
        unfold loadSegment
        rw [if_neg hl]
        rfl
      rw [List.forM_eq_forM] at hrun₂ ⊢
      rw [List.forM_cons, run_bind_ok hskip, hrun₂]

theorem imageView_append (binary : Bytes) : ∀ (hs hs' : List Proghdr) (m : Word → Option (BitVec 8)),
    imageView binary (hs ++ hs') m = imageView binary hs' (imageView binary hs m)
  | [], _, _ => rfl
  | _ :: hs, hs', _ => imageView_append binary hs hs' _

/-- Segments that have no byte of the file at `c` clear it with the pages they get. -/
theorem imageView_other (binary : Bytes) {c : Word} : ∀ (hs : List Proghdr) (m : Word → Option (BitVec 8)),
    (∀ q ∈ hs, ¬ (c - q.pVa).toNat < q.pFilesz.toNat) →
    imageView binary hs m c = if ∃ q ∈ hs, Covers q.pVa q.pMemsz c then some 0#8 else m c
  | [], m, _ => by simp [imageView]
  | ph :: hs, m, h => by
    have hph := h ph (List.mem_cons_self ..)
    unfold imageView
    rw [imageView_other binary hs _ fun q hq => h q (List.mem_cons_of_mem _ hq)]
    unfold segView
    rw [if_neg hph]
    by_cases hex : ∃ q ∈ hs, Covers q.pVa q.pMemsz c
    · obtain ⟨q, hq, hcov⟩ := hex
      rw [if_pos ⟨q, hq, hcov⟩, if_pos ⟨q, List.mem_cons_of_mem _ hq, hcov⟩]
    · rw [if_neg hex]
      refine if_congr ⟨fun hcov => ⟨ph, List.mem_cons_self .., hcov⟩, ?_⟩ rfl rfl
      rintro ⟨q, hq, hcov⟩
      rcases List.mem_cons.1 hq with rfl | hq
      · exact hcov
      · exact absurd ⟨q, hq, hcov⟩ hex

/-- The byte at `c` is in the memory of the segment. -/
def Proghdr.Has (ph : Proghdr) (c : Word) : Prop := (c - ph.pVa).toNat < ph.pMemsz.toNat

/-- The byte that the segment is to have at distance `k`. -/
def Proghdr.byte (ph : Proghdr) (binary : Bytes) (k : Nat) : BitVec 8 :=
  if k < ph.pFilesz.toNat then binary (ph.pOffset + BitVec.ofNat 32 k) else 0#8

/-- A later segment does not get a page where an earlier one has a byte of the file that is not zero. -/
def Kept (binary : Bytes) (hs : List Proghdr) : Prop :=
  hs.Pairwise fun p q => ∀ k < p.pFilesz.toNat, binary (p.pOffset + BitVec.ofNat 32 k) ≠ 0#8 →
    ¬ Covers q.pVa q.pMemsz (p.pVa + BitVec.ofNat 32 k)

/-- What the image holds where a segment has a byte: it, or zero if a later segment gets the page. -/
theorem imageView_byte (binary : Bytes) {pre post : List Proghdr} {ph : Proghdr} (m : Word → Option (BitVec 8)) (hf : ph.Fits)
    (hpost : ∀ q ∈ post, q.Fits ∧ ∀ c, ¬ (ph.Has c ∧ q.Has c)) {k : Nat} (hk : k < ph.pMemsz.toNat) :
    imageView binary (pre ++ ph :: post) m (ph.pVa + BitVec.ofNat 32 k) =
      if ∃ q ∈ post, Covers q.pVa q.pMemsz (ph.pVa + BitVec.ofNat 32 k) then some 0#8 else some (ph.byte binary k) := by
  have hoff := toNat_offset ph.pVa (Nat.lt_trans hk ph.pMemsz.isLt)
  have hno : ∀ q ∈ post, ¬ (ph.pVa + BitVec.ofNat 32 k - q.pVa).toNat < q.pFilesz.toNat := by
    intro q hq hlt
    obtain ⟨hqf, hdisj⟩ := hpost q hq
    have hph : ph.Has (ph.pVa + BitVec.ofNat 32 k) := by
      unfold Proghdr.Has
      rw [hoff]
      exact hk
    exact hdisj _ ⟨hph, Nat.lt_of_lt_of_le hlt hqf.filesz⟩
  rw [imageView_append]
  unfold imageView
  rw [imageView_other binary post _ hno]
  refine if_congr Iff.rfl rfl ?_
  unfold segView Proghdr.byte
  rw [hoff]
  by_cases h1 : k < ph.pFilesz.toNat
  · rw [if_pos h1, if_pos h1]
  · rw [if_neg h1, if_neg h1, if_pos (covers_offset hf.le hk).1]

/-- Every segment has its bytes exactly when none of them is replaced. -/
theorem imageView_kept_iff (binary : Bytes) (hs : List Proghdr) (m : Word → Option (BitVec 8)) (hf : ∀ ph ∈ hs, ph.Fits)
    (hd : hs.Pairwise fun p q => ∀ c, ¬ (p.Has c ∧ q.Has c)) :
    (∀ ph ∈ hs, ∀ k < ph.pMemsz.toNat, imageView binary hs m (ph.pVa + BitVec.ofNat 32 k) = some (ph.byte binary k)) ↔
      Kept binary hs := by
  have hsplit : ∀ pre ph post, hs = pre ++ ph :: post → ∀ q ∈ post, q.Fits ∧ ∀ c, ¬ (ph.Has c ∧ q.Has c) := by
    rintro pre ph post rfl q hq
    refine ⟨hf q (by simp [hq]), ?_⟩
    exact (List.pairwise_cons.1 (List.pairwise_append.1 hd).2.1).1 q hq
  constructor
  · intro h
    -- take the two segments out of the list
    refine List.pairwise_iff_forall_sublist.2 fun {p q} hsub k hk hne hcov => ?_
    obtain ⟨pre, hs', rfl, hp, hq⟩ := List.cons_sublist_iff.1 hsub
    obtain ⟨pre₁, pre₂, rfl⟩ := List.append_of_mem hp
    have hqpost : q ∈ pre₂ ++ hs' := List.mem_append_right _ (List.singleton_sublist.1 hq)
    have heq : pre₁ ++ p :: pre₂ ++ hs' = pre₁ ++ p :: (pre₂ ++ hs') := by simp
    have hfp := hf p (by simp)
    have hkm : k < p.pMemsz.toNat := Nat.lt_of_lt_of_le hk hfp.filesz
    have hbyte := h p (by simp) k hkm
    rw [heq, imageView_byte binary m hfp (hsplit _ _ _ heq) hkm, if_pos ⟨q, hqpost, hcov⟩] at hbyte
    unfold Proghdr.byte at hbyte
    rw [if_pos hk] at hbyte
    exact hne (Option.some.inj hbyte).symm
  · intro hk ph hph k hkm
    obtain ⟨pre, post, rfl⟩ := List.append_of_mem hph
    rw [imageView_byte binary m (hf ph hph) (hsplit _ _ _ rfl) hkm]
    split
    · rename_i hex
      obtain ⟨q, hq, hcov⟩ := hex
      have hpair := (List.pairwise_cons.1 (List.pairwise_append.1 hk).2.1).1 q hq
      unfold Proghdr.byte
      split
      · rename_i hlt
        by_contra hne
        exact hpair k hlt (fun h0 => hne (by rw [h0])) hcov
      · rfl
    · rfl

/-! ## `load_icode` -/

/-- An ELF image that `load_icode` is given: LOAD segments with disjoint memory below the stack page and with their
bytes in the file. -/
structure ValidImage (binary : Bytes) (size : Word) : Prop where
  magic : (elfhdr binary).eMagic = elfMagic
  fits : ∀ ph ∈ loadsOf (proghdrs binary), ph.Fits
  disjoint : (loadsOf (proghdrs binary)).Pairwise fun p q => ∀ c, ¬ (p.Has c ∧ q.Has c)
  inFile : ∀ ph ∈ loadsOf (proghdrs binary), ph.pOffset.toNat + ph.pFilesz.toNat ≤ size.toNat

/-- The pages that `load_icode` maps, in order: those of the LOAD segments and the stack page. -/
def icodePages (binary : Bytes) : List Word :=
  pagesOf (loadsOf (proghdrs binary)) ++ regionPages (ustacktop - pgsize) pgsize

/-- Environment `e` is new: it has a page directory `d` and no page table, and there are enough free pages `l`. -/
structure NewEnv (b : State) (M : List Nat) (s : State) (e : Slot) (d : Nat) (l : List Nat) (binary : Bytes) : Prop where
  sane : Sane b M s
  dir : s.dir e = some d
  empty : ∀ i, s.tab e i = none
  free : FreeList s l
  enough : framesFor (fun _ => false) (icodePages binary) ≤ l.length

/-- The address space of `e` holds the program of the image. -/
structure HasImage (s : State) (e : Slot) (binary : Bytes) : Prop where
  bytes : ∀ ph ∈ loadsOf (proghdrs binary), ∀ k < ph.pMemsz.toNat,
    s.userByte e (ph.pVa + BitVec.ofNat 32 k) = some (ph.byte binary k)
  writable : ∀ ph ∈ loadsOf (proghdrs binary), ∀ k < ph.pMemsz.toNat,
    ∃ w, s.pte e (pdx (ph.pVa + BitVec.ofNat 32 k)) (ptx (ph.pVa + BitVec.ofNat 32 k)) = some w ∧
      w &&& (pteP ||| pteU ||| pteW) = pteP ||| pteU ||| pteW
  stack : ∀ k < 4096, s.userByte e (ustacktop - pgsize + BitVec.ofNat 32 k) = some 0#8
  entry : (s.envs e).envTf.tfEip = (elfhdr binary).eEntry

/-- `load_icode` returns, and has built the image. -/
def BuildsImage (s : State) (e : Slot) (binary : Bytes) (size : Word) : Prop :=
  ∃ s', (loadIcode e binary size).run s = .ok () s' ∧ HasImage s' e binary

theorem Loading.congr (h : Loading b M e d l s) (hs : Sane b M s') (hd : s'.dir = s.dir) (hm : s'.mem = s.mem)
    (hp : s'.pages = s.pages) (hl : s'.pageFreeList = s.pageFreeList) : Loading b M e d l s' := by
  have hpte := pte_congr hm hd
  refine ⟨hs, by rw [hd]; exact h.dir, ?_, by rw [hpte]; exact h.once, by rw [hpte]; exact h.entry⟩
  unfold FreeList
  rw [hp, hl]
  exact h.free

theorem userByte_congr (hd : s'.dir = s.dir) (hm : s'.mem = s.mem) : s'.userByte = s.userByte := by
  funext e a
  unfold State.userByte
  rw [pte_congr hm hd, hm]

theorem tabled_congr (hd : s'.dir = s.dir) (hm : s'.mem = s.mem) : s'.tabled = s.tabled := by
  funext e i
  unfold State.tabled
  rw [tab_congr hm hd]

theorem NewEnv.loading {binary : Bytes} (h : NewEnv b M s e d l binary) : Loading b M e d l s :=
  ⟨h.sane, h.dir, h.free, fun i j _ _ _ _ hw => (by rw [pte_of_no_tab (h.empty i)] at hw; cases hw),
    fun i j _ hw => (by rw [pte_of_no_tab (h.empty i)] at hw; cases hw)⟩

/-- The pages of the program, the stack page and the entry point are right whatever the segments; the bytes are
those that the segments leave. -/
theorem loadIcode_view {binary : Bytes} {size : Word} (h : NewEnv b M s e d l binary) (hv : ValidImage binary size) :
    ∃ s' l', (loadIcode e binary size).run s = .ok () s' ∧ Loading b M e d l' s' ∧
      (∀ c, s'.userByte e c = if Covers (ustacktop - pgsize) pgsize c then some 0#8 else
        imageView binary (loadsOf (proghdrs binary)) (fun _ => none) c) ∧
      (s'.envs e).envTf.tfEip = (elfhdr binary).eEntry := by
  obtain ⟨hlive, hpg⟩ := dir_eq_some.1 h.dir
  have hempty : s.userByte e = fun _ => none := by
    funext c
    unfold State.userByte
    rw [pte_of_no_tab (h.empty _)]
    rfl
  have htabled : s.tabled e = fun _ => false := by
    funext i
    unfold State.tabled
    rw [h.empty]
    rfl
  -- the directory of the environment is loaded
  let s₁ := s.setCpu { s.cpus s.cpunum with cr3 := page2pa d, tlb := [] }
  have h₁ : Loading b M e d l s₁ := h.loading.congr (h.sane.congr rfl rfl rfl rfl rfl rfl rfl) rfl rfl rfl rfl
  have hc₁ : (s₁.cpus s₁.cpunum).cr3 = page2pa d := by
    show (Function.update s.cpus s.cpunum _ s.cpunum).cr3 = _
    rw [Function.update_self]
  have hen : framesFor (s₁.tabled e) (icodePages binary) ≤ l.length := by
    rw [show s₁.tabled = s.tabled from tabled_congr rfl rfl, htabled]
    exact h.enough
  obtain ⟨s₂, hrun₂, ⟨l₂, h₂, hen₂⟩, hr₂, -, hb₂⟩ := Loading.segments binary _ h₁ hc₁ hv.fits hen
  rw [show s₁.userByte = s.userByte from userByte_congr rfl rfl, hempty] at hb₂
  -- the directory of the kernel is loaded again and the entry point set
  let s₃ := s₂.setCpu { s₂.cpus s₂.cpunum with cr3 := page2pa s₂.kernPgdir, tlb := [] }
  let v : Env := { s₃.envs e with envTf := { (s₃.envs e).envTf with tfEip := (elfhdr binary).eEntry } }
  let s₄ := s₃.setEnv e v
  have hlive₃ : (s₃.envs e).envStatus ≠ .free := by
    show (s₂.envs e).envStatus ≠ .free
    rw [hr₂.envs]
    exact hlive
  have h₃ : Loading b M e d l₂ s₃ := h₂.congr (h₂.sane.congr rfl rfl rfl rfl rfl rfl rfl) rfl rfl rfl rfl
  have hdir₄ : s₄.dir = s₃.dir := dir_setEnv hlive₃ hlive₃ rfl
  have h₄ : Loading b M e d l₂ s₄ := h₃.congr (Sane.setEnv (v := v) h₃.sane hlive₃ hlive₃ rfl rfl) hdir₄ rfl rfl rfl
  have hstack : (ustacktop - pgsize).toNat + pgsize.toNat ≤ ustacktop.toNat := by decide
  have hen₄ : framesFor (s₄.tabled e) (regionPages (ustacktop - pgsize) pgsize ++ []) ≤ l₂.length := by
    rw [List.append_nil, show s₄.tabled = s₃.tabled from tabled_congr hdir₄ rfl,
      show s₃.tabled = s₂.tabled from tabled_congr rfl rfl]
    exact hen₂
  obtain ⟨s₅, hrun₅, ⟨l₅, h₅, -⟩, hr₅, -, hb₅⟩ := h₄.pages _ (fun a ha => regionPages_lt hstack ha) hen₄
  refine ⟨s₅, l₅, ?_, h₅, fun c => ?_, ?_⟩
  · unfold loadIcode
    have hpa : (paddr (some d)).run s = .ok (page2pa d) s := rfl
    have hkern : (paddr (some s₂.kernPgdir)).run s₂ = .ok (page2pa s₂.kernPgdir) s₂ := rfl
    rw [if_neg (not_not.2 hv.magic), run_bind_ok (run_env e), hpg, run_bind_ok hpa,
      run_bind_ok (show (lcr3 (page2pa d)).run s = .ok () s₁ from rfl), run_bind_ok hrun₂, run_bind_ok (EStateM.run_get s₂),
      run_bind_ok hkern, run_bind_ok (show (lcr3 (page2pa s₂.kernPgdir)).run s₂ = .ok () s₃ from rfl),
      run_bind_ok (run_modifyEnv ..)]
    exact hrun₅
  · rw [hb₅, show s₄.userByte = s₃.userByte from userByte_congr hdir₄ rfl,
      show s₃.userByte = s₂.userByte from userByte_congr rfl rfl,
      hb₂]
    exact if_congr (covers_iff hstack) rfl rfl
  · rw [hr₅.envs]
    show (Function.update s₃.envs e v e).envTf.tfEip = _
    rw [Function.update_self]

/-- Where no segment lies on the stack page, memory shows the bytes of each segment as it was loaded last. -/
theorem ValidImage.segment {binary : Bytes} {size : Word} (hv : ValidImage binary size)
    (hbytes : ∀ c, s'.userByte e c = if Covers (ustacktop - pgsize) pgsize c then some 0#8 else
      imageView binary (loadsOf (proghdrs binary)) (fun _ => none) c) :
    ∀ ph ∈ loadsOf (proghdrs binary), ∀ k < ph.pMemsz.toNat, s'.userByte e (ph.pVa + BitVec.ofNat 32 k) =
      imageView binary (loadsOf (proghdrs binary)) (fun _ => none) (ph.pVa + BitVec.ofNat 32 k) := by
  intro ph hph k hk
  have hu : (ustacktop - pgsize).toNat = 0xeebfd000 := by decide
  have hpz : pgsize.toNat = 4096 := rfl
  have hbelow := (hv.fits ph hph).below
  rw [hbytes, if_neg]
  unfold Covers
  rw [pgnum_eq, BitVec.toNat_add, BitVec.toNat_ofNat]
  omega

theorem BuildsImage.kept {binary : Bytes} {size : Word} (hb : BuildsImage s e binary size) (h : NewEnv b M s e d l binary)
    (hv : ValidImage binary size) : Kept binary (loadsOf (proghdrs binary)) := by
  obtain ⟨s', l', hrun, -, hbytes, -⟩ := loadIcode_view h hv
  obtain ⟨s'', hrun', him⟩ := hb
  cases hrun.symm.trans hrun'
  refine (imageView_kept_iff binary _ (fun _ => none) hv.fits hv.disjoint).1 fun ph hph k hk => ?_
  rw [← hv.segment hbytes ph hph k hk]
  exact him.bytes ph hph k hk

/-- The image is built exactly when no later segment gets a page on which an earlier one has a byte of the file
that is not zero. -/
theorem loadIcode_builds_iff {binary : Bytes} {size : Word} (h : NewEnv b M s e d l binary) (hv : ValidImage binary size) :
    BuildsImage s e binary size ↔ Kept binary (loadsOf (proghdrs binary)) := by
  refine ⟨fun hb => hb.kept h hv, fun hk => ?_⟩
  obtain ⟨s', l', hrun, hl, hbytes, hentry⟩ := loadIcode_view h hv
  have hb : ∀ ph ∈ loadsOf (proghdrs binary), ∀ k < ph.pMemsz.toNat,
      s'.userByte e (ph.pVa + BitVec.ofNat 32 k) = some (ph.byte binary k) := by
    intro ph hph k hkm
    rw [hv.segment hbytes ph hph k hkm]
    exact (imageView_kept_iff binary _ (fun _ => none) hv.fits hv.disjoint).2 hk ph hph k hkm
  refine ⟨s', hrun, hb, fun ph hph k hkm => ?_, fun k hk4 => ?_, hentry⟩
  · have hbyte := hb ph hph k hkm
    unfold State.userByte at hbyte
    cases hw : s'.pte e (pdx (ph.pVa + BitVec.ofNat 32 k)) (ptx (ph.pVa + BitVec.ofNat 32 k)) with
    | none => rw [hw] at hbyte; cases hbyte
    | some w =>
      obtain ⟨p, rfl⟩ := hl.entry _ _ _ hw
      exact ⟨_, rfl, entry_user p⟩
  · have hu : (ustacktop - pgsize).toNat = 0xeebfd000 := by decide
    have hpz : pgsize.toNat = 4096 := rfl
    rw [hbytes, if_pos]
    unfold Covers
    rw [pgnum_eq, BitVec.toNat_add, BitVec.toNat_ofNat]
    omega

/-! ## Two segments -/

/-- `env_alloc` leaves a new environment. -/
theorem newEnv_of_spawned {le' : List Slot} {parentId : Word} {binary : Bytes} (h : Spawned s s' l l' e parentId)
    (hi : Inv (· = ·) b M s' l' le')
    (hg : Genuine s') (hen : framesFor (fun _ => false) (icodePages binary) ≤ l'.length) : ∃ d, NewEnv b M s' e d l' binary := by
  obtain ⟨d, -, henvs⟩ := h.envs
  have he : s'.envs e = newEnv e parentId { s.envs e with envPgdir := some d } := by rw [henvs, Function.update_self]
  refine ⟨d, ⟨⟨l', le', hi⟩, hg⟩, dir_eq_some.2 ⟨?_, ?_⟩, fun i => ?_, hi.chain, hen⟩
  · rw [he]
    simp [newEnv]
  · rw [he]
    rfl
  · rw [h.tab]
    exact node_of_no_root (dir_free h.wasFree) i

/-- An image with two LOAD segments of one byte, both of them byte 116 of the file: the first at `UTEXT`, the second at `va`. -/
def twoSegments (va : Word) : Bytes :=
  [(0#32, elfMagic), (24#32, utext), (28#32, 52#32), (44#32, 2#32), (52#32, elfProgLoad), (56#32, 116#32), (60#32, utext),
    (68#32, 1#32), (72#32, 1#32), (84#32, elfProgLoad), (88#32, 116#32), (92#32, va), (100#32, 1#32), (104#32, 1#32),
    (116#32, 0x55#32)].foldl (fun m x => m.write x.1 x.2) fun _ => 0#8

/-- The header of a segment of `twoSegments`. -/
def byteAt116 (va : Word) : Proghdr := { pType := elfProgLoad, pOffset := 116#32, pVa := va, pFilesz := 1#32, pMemsz := 1#32 }

theorem byteAt116_has {va c : Word} (h : (byteAt116 va).Has c) : c = va := by
  unfold Proghdr.Has byteAt116 at h
  have h1 : (c - va).toNat = 0 := by
    have hlt : (c - va).toNat < 1 := h
    omega
  have h2 : c - va = 0#32 := BitVec.eq_of_toNat_eq h1
  bv_omega

/-- The segments on one page, and on two. -/
theorem twoSegments_loads : loadsOf (proghdrs (twoSegments (utext + 1#32))) = [byteAt116 utext, byteAt116 (utext + 1#32)] ∧
    loadsOf (proghdrs (twoSegments (utext + pgsize))) = [byteAt116 utext, byteAt116 (utext + pgsize)] := by
  decide +kernel

theorem twoSegments_valid {va : Word} (hm : (elfhdr (twoSegments va)).eMagic = elfMagic)
    (hl : loadsOf (proghdrs (twoSegments va)) = [byteAt116 utext, byteAt116 va])
    (hva : va.toNat + 1 ≤ (ustacktop - pgsize).toNat) (hne : utext ≠ va) : ValidImage (twoSegments va) 120#32 := by
  refine ⟨hm, ?_, ?_, ?_⟩
  · rw [hl]
    intro ph hph
    rcases List.mem_cons.1 hph with rfl | hph
    · exact ⟨by decide, by decide⟩
    · cases List.mem_singleton.1 hph
      exact ⟨hva, Nat.le_refl _⟩
  · rw [hl]
    refine List.pairwise_pair.2 fun c hc => hne ?_
    exact (byteAt116_has hc.1).symm.trans (byteAt116_has hc.2)
  · rw [hl]
    intro ph hph
    rcases List.mem_cons.1 hph with rfl | hph
    · decide
    · cases List.mem_singleton.1 hph
      show 117 ≤ 120
      decide

/-- The first environment is new. -/
theorem firstEnv_new (binary : Bytes) (hen : framesFor (fun _ => false) (icodePages binary) ≤ 127) :
    ∃ d, NewEnv bootState (pagesDown 128) firstEnv 0 d (pagesDown 127) binary := by
  have hrun : (envAlloc 0#32).run bootState = .ok (0, some 0) firstEnv := rfl
  obtain ⟨-, hg⟩ := reach_inv bootState_booted firstEnv_reach
  have hfree : FreeList firstEnv (pagesDown 127) := by
    refine Chain.congr (fun p _ => ?_) (chain_pagesDown (n := 127) (by decide))
    show ((Function.update bootState.pages 128 _) p).ppLink = _
    by_cases hp : p = 128
    · rw [hp, Function.update_self]
      rfl
    · rw [Function.update_of_ne hp]
      rfl
  rcases alloc_spec countRel_eq (bootState_booted.inv _) 0#32 with ⟨h, -⟩ | ⟨h, -⟩ | ⟨e, le', s', l', -, h, hi, hsp⟩
  · cases hrun.symm.trans h
  · cases hrun.symm.trans h
  · cases hrun.symm.trans h
    cases hi.toFreePages.unique hfree
    exact newEnv_of_spawned hsp hi hg (by rw [length_pagesDown]; exact hen)

/-- Segments on two pages are loaded. -/
theorem loadIcode_builds_iff_apart : BuildsImage firstEnv 0 (twoSegments (utext + pgsize)) 120#32 := by
  obtain ⟨d, hnew⟩ := firstEnv_new (twoSegments (utext + pgsize)) (by decide +kernel)
  have hl := twoSegments_loads.2
  refine (loadIcode_builds_iff hnew (twoSegments_valid (by decide +kernel) hl (by decide) (by decide))).2 ?_
  unfold Kept
  rw [hl]
  refine List.pairwise_pair.2 fun k hk _ hcov => ?_
  have hk0 : k = 0 := by
    have hk1 : k < 1 := hk
    omega
  subst hk0
  revert hcov
  decide

/-- The byte of the first segment is lost when the second one is on its page. -/
theorem loadIcode_shared_page : ValidImage (twoSegments (utext + 1#32)) 120#32 ∧
    (∃ d l, NewEnv bootState (pagesDown 128) firstEnv 0 d l (twoSegments (utext + 1#32))) ∧
    ¬ BuildsImage firstEnv 0 (twoSegments (utext + 1#32)) 120#32 := by
  obtain ⟨d, hnew⟩ := firstEnv_new (twoSegments (utext + 1#32)) (by decide +kernel)
  have hl := twoSegments_loads.1
  have hv := twoSegments_valid (by decide +kernel) hl (by decide) (by decide)
  refine ⟨hv, ⟨d, _, hnew⟩, fun hb => ?_⟩
  have hk := hb.kept hnew hv
  unfold Kept at hk
  rw [hl] at hk
  exact List.pairwise_pair.1 hk 0 (by decide) (by decide +kernel) (by decide)

end Jos
