/-
The boot loader of boot/main.c. It reads whole sectors, so that a segment brings bytes in front of it and behind it, and
what a later segment brings replaces what an earlier one has brought.
-/
import Jos.Kern.Icode

namespace Jos

open Lib

/-! ## The code -/

/-- `readsect`, for a disk as its bytes: the sector `offset` is copied to `dst`. -/
def readsect (disk : Nat → BitVec 8) (dst offset : Word) (mem : Bytes) : Bytes :=
  fun a => if (a - dst).toNat < 512 then disk (512 * offset.toNat + (a - dst).toNat) else mem a

/-- The loop of `readseg`. -/
def readSectors (disk : Nat → BitVec 8) (endPa : Word) : Nat → Word → Word → Bytes → Option Bytes
  | 0, _, _, _ => none
  | lim + 1, pa, offset, mem =>
    if pa < endPa then readSectors disk endPa lim (pa + 512#32) (offset + 1#32) (readsect disk pa offset mem) else some mem

def readseg (disk : Nat → BitVec 8) (lim : Nat) (pa count offset : Word) (mem : Bytes) : Option Bytes :=
  let endPa := pa + count
  let pa := pa &&& ~~~(512#32 - 1#32)
  let offset := offset / 512#32 + 1#32
  readSectors disk endPa lim pa offset mem

/-- The fields of `struct Proghdr` that `bootmain` reads, and `p_filesz`. -/
structure LoadHdr where
  pOffset : Word
  pPa : Word
  pFilesz : Word
  pMemsz : Word
  deriving DecidableEq

def loadHdr (mem : Bytes) (ph : Word) : LoadHdr where
  pOffset := mem.read (ph + 4#32)
  pPa := mem.read (ph + 12#32)
  pFilesz := mem.read (ph + 16#32)
  pMemsz := mem.read (ph + 20#32)

/-- `ELFHDR`, the scratch space. -/
def elfhdrPa : Word := 0x10000#32

/-- `for (; ph < eph; ph++)`. -/
def loadSegments (disk : Nat → BitVec 8) (rlim : Nat) (eph : Word) : Nat → Word → Bytes → Option Bytes
  | 0, _, _ => none
  | lim + 1, ph, mem =>
    if ph < eph then do
      let s := loadHdr mem ph
      let mem ← readseg disk rlim s.pPa s.pMemsz s.pOffset mem
      loadSegments disk rlim eph lim (ph + 32#32) mem
    else some mem

/-- Where `bootmain` ends: it calls the kernel's entry, or it stays at `bad`. -/
inductive BootEnd where
  | entry (eip : Word) (mem : Bytes)
  | bad

def bootmain (disk : Nat → BitVec 8) (lim : Nat) (mem : Bytes) : Option BootEnd := do
  let mem ← readseg disk lim elfhdrPa (512#32 * 8#32) 0#32 mem
  let hdr := elfhdr fun o => mem (elfhdrPa + o)
  if hdr.eMagic ≠ elfMagic then return .bad
  else do
    let ph := elfhdrPa + hdr.ePhoff
    let eph := ph + 32#32 * hdr.ePhnum.setWidth 32
    let mem ← loadSegments disk lim eph lim ph mem
    return .entry (elfhdr fun o => mem (elfhdrPa + o)).eEntry mem

/-! ## One segment -/

/-- The kernel image starts at sector 1. -/
def image (disk : Nat → BitVec 8) (j : Nat) : BitVec 8 := disk (512 + j)

/-- The arguments of a `readseg`. -/
structure Transfer where
  pa : Word
  count : Word
  offset : Word

/-- `a` is in one of the sectors that are read. -/
def Transfer.reaches (t : Transfer) (a : Word) : Prop := t.pa.toNat / 512 ≤ a.toNat / 512 ∧
    a.toNat / 512 * 512 < (t.pa + t.count).toNat

instance (t : Transfer) (a : Word) : Decidable (t.reaches a) := by unfold Transfer.reaches; infer_instance

/-- The byte of the image that is brought to `a`. -/
def Transfer.source (t : Transfer) (a : Word) : Nat := t.offset.toNat / 512 * 512 + (a.toNat - t.pa.toNat / 512 * 512)

/-- The loop ends: it does not run into the last sector of the address space. -/
def Transfer.ends (t : Transfer) : Prop := (t.pa + t.count).toNat + 512 ≤ 2 ^ 32

variable {disk : Nat → BitVec 8} {lim : Nat} {mem : Bytes} {t : Transfer} {a pa offset endPa : Word}

theorem sector_toNat (pa : Word) : (pa &&& ~~~(512#32 - 1#32)).toNat = pa.toNat / 512 * 512 := clearLow_toNat pa 9

theorem readSectors_run (he : endPa.toNat + 512 ≤ 2 ^ 32) : ∀ {lim : Nat} {pa offset : Word} {mem : Bytes}, pa.toNat % 512 = 0 →
    (endPa.toNat + 511 - pa.toNat) / 512 < lim → offset.toNat + (endPa.toNat + 511 - pa.toNat) / 512 < 2 ^ 32 →
    readSectors disk endPa lim pa offset mem = some fun a =>
      if pa.toNat ≤ a.toNat ∧ a.toNat / 512 * 512 < endPa.toNat then disk (512 * offset.toNat + (a.toNat - pa.toNat)) else mem a
  | lim + 1, pa, offset, mem, hpa, hlim, ho => by
    unfold readSectors
    by_cases hlt : pa < endPa
    · have hnext : (pa + 512#32).toNat = pa.toNat + 512 := by bv_omega
      have hoff : (offset + 1#32).toNat = offset.toNat + 1 := by bv_omega
      have hpos : pa.toNat < endPa.toNat := hlt
      rw [if_pos hlt, readSectors_run he (by omega) (by omega) (by omega)]
      refine congrArg some (funext fun a => ?_)
      rw [hnext, hoff]
      unfold readsect
      by_cases ha : (a - pa).toNat < 512
      · have hsub : (a - pa).toNat = a.toNat - pa.toNat ∧ pa.toNat ≤ a.toNat := by bv_omega
        rw [if_neg (by omega), if_pos ha, if_pos (by bv_omega), hsub.1]
      · have hnot : ¬ (pa.toNat ≤ a.toNat ∧ a.toNat < pa.toNat + 512) := by bv_omega
        rw [if_neg ha]
        by_cases hin : pa.toNat + 512 ≤ a.toNat ∧ a.toNat / 512 * 512 < endPa.toNat
        · rw [if_pos hin, if_pos (by omega)]
          exact congrArg disk (by omega)
        · rw [if_neg hin, if_neg (by omega)]
    · have hge : endPa.toNat ≤ pa.toNat := Nat.not_lt.1 hlt
      rw [if_neg hlt]
      refine congrArg some (funext fun a => ?_)
      rw [if_neg (by omega)]

theorem readSectors_none (he : 2 ^ 32 < endPa.toNat + 512) : ∀ {lim : Nat} {pa offset : Word} {mem : Bytes}, pa.toNat % 512 = 0 →
    readSectors disk endPa lim pa offset mem = none
  | 0, _, _, _, _ => rfl
  | lim + 1, pa, offset, mem, hpa => by
    unfold readSectors
    rw [if_pos (by bv_omega)]
    exact readSectors_none he (by bv_omega)

/-- A `readseg` whose loop ends brings the bytes of its sectors. -/
theorem readseg_run (ht : t.ends) (hlim : 2 ^ 23 < lim) :
    readseg disk lim t.pa t.count t.offset mem = some fun a => if t.reaches a then image disk (t.source a) else mem a := by
  have hend : (t.pa + t.count).toNat + 512 ≤ 2 ^ 32 := ht
  have hpa := sector_toNat t.pa
  have hdiv : (t.offset / 512#32).toNat = t.offset.toNat / 512 := BitVec.toNat_udiv
  have hoff : (t.offset / 512#32 + 1#32).toNat = t.offset.toNat / 512 + 1 := by
    have := t.offset.isLt
    rw [BitVec.toNat_add, hdiv]
    show (t.offset.toNat / 512 + 1) % 2 ^ 32 = _
    omega
  have := t.offset.isLt
  unfold readseg
  dsimp only
  rw [readSectors_run hend (by omega) (by omega) (by omega)]
  refine congrArg some (funext fun a => ?_)
  rw [hpa, hoff]
  by_cases ha : t.reaches a
  · have hlow : t.pa.toNat / 512 ≤ a.toNat / 512 := ha.1
    rw [if_pos ha, if_pos ⟨by omega, ha.2⟩]
    unfold Transfer.source image
    exact congrArg disk (by omega)
  · rw [if_neg ha, if_neg fun h => ha ⟨by omega, h.2⟩]

theorem readseg_none (ht : ¬ t.ends) : readseg disk lim t.pa t.count t.offset mem = none := by
  have hpa := sector_toNat t.pa
  unfold readseg
  exact readSectors_none (Nat.not_le.1 ht) (by omega)

/-! ## All segments -/

/-- One transfer after the other. -/
def transferAll (disk : Nat → BitVec 8) (lim : Nat) : List Transfer → Bytes → Option Bytes
  | [], mem => some mem
  | t :: ts, mem => readseg disk lim t.pa t.count t.offset mem >>= transferAll disk lim ts

/-- The byte of the image that the last transfer to reach `a` brings there. -/
def brought (disk : Nat → BitVec 8) (a : Word) : List Transfer → Option (BitVec 8)
  | [] => none
  | t :: ts => (brought disk a ts).or (if t.reaches a then some (image disk (t.source a)) else none)

theorem brought_cons (t : Transfer) (ts : List Transfer) :
    brought disk a (t :: ts) = (brought disk a ts).or (if t.reaches a then some (image disk (t.source a)) else none) := rfl

theorem transferAll_run (hlim : 2 ^ 23 < lim) : ∀ {ts : List Transfer} {mem : Bytes}, (∀ t ∈ ts, t.ends) →
    transferAll disk lim ts mem = some fun a => (brought disk a ts).getD (mem a)
  | [], mem, _ => rfl
  | t :: ts, mem, h => by
    unfold transferAll
    rw [readseg_run (h t (List.mem_cons_self ..)) hlim]
    dsimp only [Option.bind_eq_bind, Option.bind_some]
    rw [transferAll_run hlim fun t ht => h t (List.mem_cons_of_mem _ ht)]
    refine congrArg some (funext fun a => ?_)
    rw [brought_cons]
    cases brought disk a ts with
    | some b => rfl
    | none => by_cases ha : t.reaches a <;> simp [ha]

theorem transferAll_none : ∀ {ts : List Transfer} {mem : Bytes}, (∃ t ∈ ts, ¬ t.ends) → transferAll disk lim ts mem = none
  | [], _, h => by simp at h
  | t :: ts, mem, h => by
    unfold transferAll
    by_cases ht : t.ends
    · obtain ⟨u, hu, hne⟩ := h
      have hu' : u ∈ ts := (List.mem_cons.1 hu).resolve_left fun he => hne (he ▸ ht)
      cases readseg disk lim t.pa t.count t.offset mem with
      | none => rfl
      | some m => exact transferAll_none ⟨u, hu', hne⟩
    · rw [readseg_none ht]
      rfl

/-! ## The headers -/

/-- The image as the kernel's code would see it in memory. -/
def imageBytes (disk : Nat → BitVec 8) : Bytes := fun o => image disk o.toNat

def imageElf (disk : Nat → BitVec 8) : Elf := elfhdr (imageBytes disk)

/-- The program headers of the image. -/
def segments (disk : Nat → BitVec 8) : List LoadHdr :=
  (List.range (imageElf disk).ePhnum.toNat).map fun k =>
    loadHdr (imageBytes disk) ((imageElf disk).ePhoff + BitVec.ofNat 32 (32 * k))

def LoadHdr.transfer (s : LoadHdr) : Transfer := ⟨s.pPa, s.pMemsz, s.pOffset⟩

/-- The first page of the image. -/
def headerTransfer : Transfer := ⟨elfhdrPa, 512#32 * 8#32, 0#32⟩

/-- All that `bootmain` reads. -/
def transfers (disk : Nat → BitVec 8) : List Transfer := headerTransfer :: (segments disk).map LoadHdr.transfer

/-- An ELF image whose program headers are in its first page, and whose segments go above the scratch space. -/
structure Bootable (disk : Nat → BitVec 8) : Prop where
  magic : (imageElf disk).eMagic = elfMagic
  inPage : (imageElf disk).ePhoff.toNat + 32 * (imageElf disk).ePhnum.toNat ≤ 4096
  above : ∀ s ∈ segments disk, elfhdrPa.toNat + 4096 ≤ s.pPa.toNat

/-- The first page is in the scratch space. -/
def HeaderIn (disk : Nat → BitVec 8) (mem : Bytes) : Prop := ∀ o : Word, o.toNat < 4096 → mem (elfhdrPa + o) = imageBytes disk o

theorem elfhdrPa_add {o : Word} (ho : o.toNat < 4096) : (elfhdrPa + o).toNat = 0x10000 + o.toNat := by
  rw [BitVec.toNat_add, show elfhdrPa.toNat = 0x10000 from rfl]
  omega

theorem length_segments (disk : Nat → BitVec 8) : (segments disk).length = (imageElf disk).ePhnum.toNat := by simp [segments]

theorem read_at (mem : Bytes) (b a : Word) : mem.read (b + a) = Bytes.read (fun o => mem (b + o)) a := by
  unfold Bytes.read
  simp only [BitVec.add_assoc]

theorem HeaderIn.read (h : HeaderIn disk mem) {o : Word} (ho : o.toNat + 4 ≤ 4096) :
    Bytes.read (fun o => mem (elfhdrPa + o)) o = (imageBytes disk).read o :=
  read_congr fun j hj => h _ (by bv_omega)

theorem HeaderIn.elfhdr (h : HeaderIn disk mem) : elfhdr (fun o => mem (elfhdrPa + o)) = imageElf disk := by
  unfold imageElf Jos.elfhdr
  rw [h.read (by decide), h.read (by decide), h.read (by decide)]
  dsimp only
  rw [h 45#32 (by decide), h 44#32 (by decide)]

theorem HeaderIn.loadHdr (h : HeaderIn disk mem) {o : Word} (ho : o.toNat + 32 ≤ 4096) :
    loadHdr mem (elfhdrPa + o) = loadHdr (imageBytes disk) o := by
  unfold Jos.loadHdr
  have hread : ∀ k : Word, k.toNat ≤ 20 → mem.read (elfhdrPa + o + k) = (imageBytes disk).read (o + k) := by
    intro k hk
    rw [BitVec.add_assoc, read_at]
    exact h.read (by bv_omega)
  rw [hread _ (by decide), hread _ (by decide), hread _ (by decide), hread _ (by decide)]

/-- No segment goes over the headers. -/
theorem HeaderIn.readseg {mem' : Bytes} (h : HeaderIn disk mem) (hlim : 2 ^ 23 < lim) (ht : elfhdrPa.toNat + 4096 ≤ t.pa.toNat)
    (hrun : readseg disk lim t.pa t.count t.offset mem = some mem') : HeaderIn disk mem' := by
  by_cases hends : t.ends
  · rw [readseg_run hends hlim] at hrun
    cases hrun
    intro o ho
    have hpa : elfhdrPa.toNat = 0x10000 := rfl
    have ha := elfhdrPa_add ho
    have hnot : ¬ t.reaches (elfhdrPa + o) := fun hr => by
      have := hr.1
      omega
    dsimp only
    rw [if_neg hnot]
    exact h o ho
  · rw [readseg_none hends] at hrun
    cases hrun

theorem headerTransfer_run (disk : Nat → BitVec 8) (hlim : 2 ^ 23 < lim) (mem : Bytes) : ∃ mem', HeaderIn disk mem' ∧
    readseg disk lim elfhdrPa (512#32 * 8#32) 0#32 mem = some mem' := by
  refine ⟨_, fun o ho => ?_, readseg_run (t := headerTransfer) (by unfold Transfer.ends; decide) hlim⟩
  have hpa : headerTransfer.pa.toNat = 0x10000 := rfl
  have hend : (headerTransfer.pa + headerTransfer.count).toNat = 0x11000 := rfl
  have hoff : headerTransfer.offset.toNat = 0 := rfl
  have ha := elfhdrPa_add ho
  have hreach : headerTransfer.reaches (elfhdrPa + o) := ⟨by omega, by omega⟩
  show (if headerTransfer.reaches (elfhdrPa + o) then _ else _) = _
  rw [if_pos hreach]
  unfold imageBytes Transfer.source
  rw [hpa, hoff, ha]
  exact congrArg (image disk) (by omega)

/-! ## `bootmain` -/

/-- The loop goes through the headers of the image from the `k`-th on. -/
theorem loadSegments_run (hb : Bootable disk) (hlim : 2 ^ 23 < lim) :
    ∀ (j : Nat) {k n : Nat} {mem : Bytes}, k + j = (imageElf disk).ePhnum.toNat → HeaderIn disk mem → j < n →
      loadSegments disk lim (elfhdrPa + (imageElf disk).ePhoff + 32#32 * (imageElf disk).ePhnum.setWidth 32) n
        (elfhdrPa + (imageElf disk).ePhoff + BitVec.ofNat 32 (32 * k)) mem =
      transferAll disk lim (((segments disk).drop k).map LoadHdr.transfer) mem
  | 0, k, n + 1, mem, hk, _, _ => by
    have hpage := hb.inPage
    have hlen := length_segments disk
    have hge : ¬ elfhdrPa + (imageElf disk).ePhoff + BitVec.ofNat 32 (32 * k) <
        elfhdrPa + (imageElf disk).ePhoff + 32#32 * (imageElf disk).ePhnum.setWidth 32 := by
      have hpa : elfhdrPa.toNat = 0x10000 := rfl
      bv_omega
    unfold loadSegments
    rw [if_neg hge, List.drop_eq_nil_of_le (by omega)]
    rfl
  | j + 1, k, n + 1, mem, hk, hmem, hn => by
    have hpage := hb.inPage
    have hpa : elfhdrPa.toNat = 0x10000 := rfl
    have hlt : elfhdrPa + (imageElf disk).ePhoff + BitVec.ofNat 32 (32 * k) <
        elfhdrPa + (imageElf disk).ePhoff + 32#32 * (imageElf disk).ePhnum.setWidth 32 := by bv_omega
    have hlen := length_segments disk
    have hk' : k < (segments disk).length := by omega
    obtain ⟨s, hs⟩ : ∃ s, (segments disk)[k] = s := ⟨_, rfl⟩
    have hseg : s = loadHdr (imageBytes disk) ((imageElf disk).ePhoff + BitVec.ofNat 32 (32 * k)) := by
      rw [← hs]
      simp [segments]
    have hhdr : loadHdr mem (elfhdrPa + (imageElf disk).ePhoff + BitVec.ofNat 32 (32 * k)) = s := by
      rw [hseg, BitVec.add_assoc]
      exact hmem.loadHdr (by bv_omega)
    have habove := hb.above s (hs ▸ List.getElem_mem hk')
    have hnext : elfhdrPa + (imageElf disk).ePhoff + BitVec.ofNat 32 (32 * k) + 32#32 =
        elfhdrPa + (imageElf disk).ePhoff + BitVec.ofNat 32 (32 * (k + 1)) := by bv_omega
    unfold loadSegments
    rw [if_pos hlt, List.drop_eq_getElem_cons hk', List.map_cons, hs]
    dsimp only
    rw [hhdr]
    unfold transferAll
    cases hrun : readseg disk lim s.pPa s.pMemsz s.pOffset mem with
    | none => simp [LoadHdr.transfer, hrun]
    | some mem' =>
      have ih := loadSegments_run hb hlim j (k := k + 1) (n := n) (by omega)
        (hmem.readseg (t := s.transfer) hlim habove hrun) (by omega)
      rw [← hnext] at ih
      simpa [LoadHdr.transfer, hrun] using ih

theorem bootmain_run (hb : Bootable disk) (hlim : 2 ^ 23 < lim) (mem : Bytes) :
    (∃ e mem', bootmain disk lim mem = some (.entry e mem') ∧ transferAll disk lim (transfers disk) mem = some mem') ∨
      bootmain disk lim mem = none ∧ transferAll disk lim (transfers disk) mem = none := by
  obtain ⟨mem₁, hhdr, hrun⟩ := headerTransfer_run disk hlim mem
  have hpage := hb.inPage
  have hloop := loadSegments_run hb hlim (imageElf disk).ePhnum.toNat (k := 0) (n := lim) (Nat.zero_add _) hhdr (by omega)
  have hzero : elfhdrPa + (imageElf disk).ePhoff + BitVec.ofNat 32 (32 * 0) = elfhdrPa + (imageElf disk).ePhoff :=
    BitVec.add_zero _
  rw [hzero, List.drop_zero] at hloop
  have hall : transferAll disk lim (transfers disk) mem = transferAll disk lim ((segments disk).map LoadHdr.transfer) mem₁ := by
    show (readseg disk lim elfhdrPa (512#32 * 8#32) 0#32 mem >>= _) = _
    rw [hrun]
    rfl
  unfold bootmain
  rw [hall, hrun]
  dsimp only [Option.bind_eq_bind, Option.bind_some]
  rw [hhdr.elfhdr, if_neg (not_not_intro hb.magic), hloop]
  cases transferAll disk lim ((segments disk).map LoadHdr.transfer) mem₁ with
  | none => exact Or.inr ⟨rfl, rfl⟩
  | some mem' => exact Or.inl ⟨_, mem', rfl, rfl⟩

theorem brought_iff {b : BitVec 8} : ∀ {ts : List Transfer}, brought disk a ts = some b ↔
    ∃ l t r, ts = l ++ t :: r ∧ t.reaches a ∧ (∀ u ∈ r, ¬ u.reaches a) ∧ image disk (t.source a) = b
  | [] => by simp [brought]
  | t :: ts => by
    have hnone : brought disk a ts = none ↔ ∀ u ∈ ts, ¬ u.reaches a := by
      induction ts with
      | nil => simp [brought]
      | cons u us ih => simp [brought_cons, Option.or_eq_none_iff, ih, and_comm]
    rw [brought_cons, Option.or_eq_some_iff, brought_iff, hnone]
    constructor
    · rintro (⟨l, u, r, rfl, hu, hr, hb⟩ | ⟨hts, hb⟩)
      · exact ⟨t :: l, u, r, rfl, hu, hr, hb⟩
      · obtain ⟨ht, hb⟩ := Option.ite_none_right_eq_some.1 hb
        exact ⟨[], t, ts, rfl, ht, hts, Option.some.inj hb⟩
    · rintro ⟨l, u, r, hl, hu, hr, hb⟩
      cases l with
      | nil =>
        obtain ⟨rfl, rfl⟩ := List.cons.inj hl
        exact Or.inr ⟨hr, by rw [if_pos hu, hb]⟩
      | cons v l =>
        obtain ⟨rfl, rfl⟩ := List.cons.inj hl
        exact Or.inl ⟨l, u, r, rfl, hu, hr, hb⟩

/-- The byte at `a` comes, with the last transfer whose sectors reach it, from a place of the image with the byte `b`. -/
def LastBrings (disk : Nat → BitVec 8) (a : Word) (b : BitVec 8) : Prop :=
  ∃ l t r, transfers disk = l ++ t :: r ∧ t.reaches a ∧ (∀ u ∈ r, ¬ u.reaches a) ∧ image disk (t.source a) = b

/-- A run that comes to the entry has ended every transfer, and the memory has what they brought. -/
theorem bootmain_some {mem' : Bytes} {e : Word} (hb : Bootable disk) (hlim : 2 ^ 23 < lim)
    (hboot : bootmain disk lim mem = some (.entry e mem')) :
    (∀ t ∈ transfers disk, t.ends) ∧ ∀ a, mem' a = (brought disk a (transfers disk)).getD (mem a) := by
  rcases bootmain_run hb hlim mem with ⟨e', mem'', hboot', hall⟩ | ⟨hboot', -⟩
  · rw [hboot] at hboot'
    cases hboot'
    have hends : ∀ t ∈ transfers disk, t.ends := by
      by_contra hnot
      push Not at hnot
      rw [transferAll_none hnot] at hall
      cases hall
    rw [transferAll_run hlim hends] at hall
    exact ⟨hends, fun a => by rw [← Option.some.inj hall]⟩
  · rw [hboot] at hboot'
    cases hboot'

theorem bootmain_of_ends (hb : Bootable disk) (hlim : 2 ^ 23 < lim) (hends : ∀ t ∈ transfers disk, t.ends) (mem : Bytes) :
    ∃ e mem', bootmain disk lim mem = some (.entry e mem') ∧ ∀ a, mem' a = (brought disk a (transfers disk)).getD (mem a) := by
  have hall : transferAll disk lim (transfers disk) mem = _ := transferAll_run hlim hends
  rcases bootmain_run hb hlim mem with ⟨e, mem', hboot, hall'⟩ | ⟨-, hall'⟩
  · rw [hall] at hall'
    exact ⟨e, mem', hboot, fun a => by rw [← Option.some.inj hall']⟩
  · rw [hall] at hall'
    cases hall'

/-- The header page is read in any case, so all transfers end when those of the segments do. -/
theorem transfers_end : (∀ t ∈ transfers disk, t.ends) ↔ ∀ s ∈ segments disk, s.transfer.ends := by
  have hhdr : headerTransfer.ends := by
    unfold Transfer.ends
    decide
  unfold transfers
  rw [List.forall_mem_cons, List.forall_mem_map, and_iff_right hhdr]

/-- `bootmain` comes to the kernel's entry with all segments in memory exactly when no segment reaches into the last sector of
the address space, and the last transfer whose sectors contain a byte of a segment has the same byte for it. -/
theorem bootmain_loads_iff (hb : Bootable disk) :
    (∀ mem, ∃ N, ∀ lim, N ≤ lim → ∃ e mem', bootmain disk lim mem = some (.entry e mem') ∧
      ∀ s ∈ segments disk, ∀ i < s.pFilesz.toNat, mem' (s.pPa + BitVec.ofNat 32 i) = image disk (s.pOffset.toNat + i)) ↔
    ∀ s ∈ segments disk, s.transfer.ends ∧
      ∀ i < s.pFilesz.toNat, LastBrings disk (s.pPa + BitVec.ofNat 32 i) (image disk (s.pOffset.toNat + i)) := by
  constructor
  · intro hloads s hs
    have hrun : ∀ mem : Bytes, (∀ t ∈ transfers disk, t.ends) ∧ ∀ i < s.pFilesz.toNat,
        (brought disk (s.pPa + BitVec.ofNat 32 i) (transfers disk)).getD (mem (s.pPa + BitVec.ofNat 32 i)) =
          image disk (s.pOffset.toNat + i) := by
      intro mem
      obtain ⟨N, hN⟩ := hloads mem
      obtain ⟨e, mem', hboot, hbytes⟩ := hN (max N (2 ^ 23 + 1)) (by omega)
      obtain ⟨hends, hmem⟩ := bootmain_some hb (by omega) hboot
      exact ⟨hends, fun i hi => by rw [← hmem, hbytes s hs i hi]⟩
    refine ⟨transfers_end.1 (hrun fun _ => 0#8).1 s hs, fun i hi => brought_iff.1 ?_⟩
    -- a memory that has another byte before
    have hbyte := (hrun fun _ => image disk (s.pOffset.toNat + i) + 1#8).2 i hi
    cases hlast : brought disk (s.pPa + BitVec.ofNat 32 i) (transfers disk) with
    | some b =>
      rw [hlast] at hbyte
      exact congrArg some hbyte
    | none =>
      rw [hlast] at hbyte
      have hne : image disk (s.pOffset.toNat + i) + 1#8 ≠ image disk (s.pOffset.toNat + i) := by bv_omega
      exact absurd hbyte hne
  · intro hcond mem
    refine ⟨2 ^ 23 + 1, fun lim hlim => ?_⟩
    obtain ⟨e, mem', hboot, hmem⟩ :=
      bootmain_of_ends hb (by omega : 2 ^ 23 < lim) (transfers_end.2 fun s hs => (hcond s hs).1) mem
    refine ⟨e, mem', hboot, fun s hs i hi => ?_⟩
    rw [hmem, brought_iff.2 ((hcond s hs).2 i hi)]
    rfl

/-- A disk with an image of these segments: a header for each, and so many equal bytes at its place. -/
def elfDisk (ss : List (LoadHdr × BitVec 8)) : Nat → BitVec 8 :=
  let word (w : Word) : List (BitVec 8) := (List.range 4).map (byteOf w)
  let header := word elfMagic ++ List.replicate 24 0#8 ++ word 52#32 ++ List.replicate 12 0#8 ++ [BitVec.ofNat 8 ss.length] ++
    List.replicate 7 0#8
  let headers := ss.flatMap fun s => word 1#32 ++ word s.1.pOffset ++ word 0#32 ++ word s.1.pPa ++ word s.1.pFilesz ++
    word s.1.pMemsz ++
    List.replicate 8 0#8
  fun k =>
    if k < 512 + 4096 then (header ++ headers).getD (k - 512) 0#8
    else match ss.find? fun s => 512 + s.1.pOffset.toNat ≤ k ∧ k < 512 + s.1.pOffset.toNat + s.1.pFilesz.toNat with
      | some s => s.2
      | none => 0#8

/-- Two segments in sectors of their own. -/
def apartDisk : Nat → BitVec 8 :=
  elfDisk [(⟨0x1000#32, 0x100000#32, 2#32, 2#32⟩, 7#8), (⟨0x1200#32, 0x100200#32, 3#32, 3#32⟩, 9#8)]

theorem apartDisk_segments : segments apartDisk =
    [⟨0x1000#32, 0x100000#32, 2#32, 2#32⟩, ⟨0x1200#32, 0x100200#32, 3#32, 3#32⟩] := by decide +kernel

theorem bootmain_loads_iff_apartDisk : ∃ N, ∀ lim, N ≤ lim → ∃ e mem',
    bootmain apartDisk lim (fun _ => 0#8) = some (.entry e mem') ∧
      ∀ s ∈ segments apartDisk, ∀ i < s.pFilesz.toNat,
        mem' (s.pPa + BitVec.ofNat 32 i) = image apartDisk (s.pOffset.toNat + i) := by
  refine (bootmain_loads_iff ⟨by decide +kernel, by decide +kernel, by rw [apartDisk_segments]; decide⟩).2
    (fun s hs => ?_) fun _ => 0#8
  rw [apartDisk_segments, List.mem_cons, List.mem_singleton] at hs
  rcases hs with rfl | rfl
  · refine ⟨by unfold Transfer.ends; decide, fun i hi => brought_iff.1 ?_⟩
    match i, hi with
    | 0, _ => decide +kernel
    | 1, _ => decide +kernel
  · refine ⟨by unfold Transfer.ends; decide, fun i hi => brought_iff.1 ?_⟩
    match i, hi with
    | 0, _ => decide +kernel
    | 1, _ => decide +kernel
    | 2, _ => decide +kernel

/-- Two segments with the congruence and in order, the second of which begins in the sector in which the first one is: what
comes in front of the second one in the image replaces the first one. -/
theorem bootmain_overwrites :
    segments (elfDisk [(⟨0x1000#32, 0x100000#32, 0x100#32, 0x100#32⟩, 1#8), (⟨0x2100#32, 0x100100#32, 0x10#32, 0x10#32⟩, 2#8)]) =
      [⟨0x1000#32, 0x100000#32, 0x100#32, 0x100#32⟩, ⟨0x2100#32, 0x100100#32, 0x10#32, 0x10#32⟩] ∧
    image (elfDisk [(⟨0x1000#32, 0x100000#32, 0x100#32, 0x100#32⟩, 1#8), (⟨0x2100#32, 0x100100#32, 0x10#32, 0x10#32⟩, 2#8)])
      0x1000 = 1#8 ∧
    ((bootmain (elfDisk [(⟨0x1000#32, 0x100000#32, 0x100#32, 0x100#32⟩, 1#8),
      (⟨0x2100#32, 0x100100#32, 0x10#32, 0x10#32⟩, 2#8)]) 20
      fun _ => 0#8).map fun r => match r with
        | .entry _ mem' => mem' 0x100000#32
        | .bad => 1#8) = some 0#8 := by
  decide +kernel

end Jos
