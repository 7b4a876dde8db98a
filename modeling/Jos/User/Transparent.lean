/-
A user page fault from the trap to the program's next instruction: `page_fault_handler` pushes the frame onto
the page of the exception stack, the upcall runs the handler in C, whose own faults are handled in the same
way, and goes back. The frame of a fault off the exception stack is always put at its top, so a handler that
leaves that stack and faults there loses the frame that it is handling.
-/
import Jos.User.Overflow
import Jos.Run.FlatMap
import Jos.Run.Image
import Jos.Run.Share

namespace Jos

open Lib Kern

variable {b s s' : State} {M : List Nat} {cur : Slot} {d : Nat} {im : Image} {K : Word → Prop} {u u' v w : User} {m : Bytes}
  {tf : Trapframe} {faultVa va a : Word} {ws : List Word}

/-! ## The memory of a program -/

/-- The memory of the program in `e`, with zeros where nothing is mapped. -/
def State.userMem (s : State) (e : Slot) : Bytes := fun a => (s.userByte e a).getD 0#8

/-- The program in `e` as `env_pop_tf` starts it. -/
def State.user (s : State) (e : Slot) : User :=
  let tf := (s.envs e).envTf
  { regs := tf.tfRegs, eip := tf.tfEip, eflags := tf.tfEflags, esp := tf.tfEsp, mem := s.userMem e }

/-- No page of memory is mapped twice in `e`, so that a store changes the bytes at its own addresses only. -/
def MappedOnce (s : State) (e : Slot) : Prop :=
  ∀ i j i' j' w w', s.pte e i j = some w → s.pte e i' j' = some w' → pgnum w = pgnum w' → i' = i ∧ j' = j

theorem Writable.page (h : Writable s cur va) (ha : a < utop) (hpg : pgnum a = pgnum va) : Writable s cur a := by
  obtain ⟨-, w, hw, hW⟩ := h
  obtain ⟨hi, hj⟩ := (idx_eq_iff a va).2 hpg
  exact ⟨ha, w, by rw [hi, hj]; exact hw, hW⟩

/-- Where the user may write, the kernel reaches the byte of the user. -/
theorem Writable.userMem (hw : Writable s cur a) (h : Loaded b M cur d s) : s.userMem cur a = s.byteAt a := by
  obtain ⟨ha, w, hpte, hW⟩ := hw
  have ht := (loaded_translate_iff h ha).2 ⟨w, hpte, hW, rfl⟩
  unfold State.userMem State.userByte State.byteAt
  rw [hpte, ht]
  rfl

/-- What the kernel writes to the page of the exception stack, the program finds there, and nothing else. -/
theorem Pushing.userMem (h : Pushing b M cur d s s' (s.byteAt.writes va ws)) (hs : Loaded b M cur d s) (honce : MappedOnce s cur)
    (hx : ∀ a, OnXstack a → Writable s cur a) (hon : ∀ a, (a - va).toNat < 4 * ws.length → OnXstack a) :
    s'.userMem cur = (s.userMem cur).writes va ws := by
  funext a
  by_cases ha : OnXstack a
  · rw [(h.stored.writable (hx a ha)).userMem h.stored.loaded, h.bytes a ha]
    exact writes_congr ((hx a ha).userMem hs).symm
  rw [writes_other (not_lt.1 fun hlt => ha (hon a hlt))]
  unfold State.userMem State.userByte
  rw [h.stored.pte]
  cases hw : s.pte cur (pdx a) (ptx a) with
  | none => rfl
  | some w =>
    -- the frame of `a` is not that of the exception stack
    have hother := h.other (pgnum w) (Fin.ofNat 1024 (a.toNat / 4 % 1024)) fun c hc hcw => by
      obtain ⟨w', hw', -, hp⟩ := (loaded_translate_iff hs hc.lt_utop).1 hcw
      obtain ⟨hi, hj⟩ := honce _ _ _ _ w w' hw hw' (Prod.mk.inj hp).1
      have hpg := (idx_eq_iff c a).1 ⟨hi, hj⟩
      rw [pgnum_eq, pgnum_eq] at hpg
      rw [onXstack_iff] at ha hc
      omega
    rw [Option.map_some, Option.map_some, hother]

/-! ## The kernel -/

/-- A CPU is in the kernel for `cur`, whose memory is `m` and whose upcall is that of `im`. -/
structure InKernel (im : Image) (b : State) (M : List Nat) (cur : Slot) (d : Nat) (m : Bytes) (s : State) : Prop where
  kern : KernDir b M
  loaded : Loaded b M cur d s
  once : MappedOnce s cur
  current : s.curenv = some cur
  locked : s.kernelLock = some s.cpunum
  upcall : (s.envs cur).envPgfaultUpcall = im.upcall ∧ im.upcall ≠ 0#32
  mem : s.userMem cur = m

/-- The program `u` faults with the trap frame `tf`, `page_fault_handler` accepts the addresses of the frame that it is
to push, and the CPU is back in user mode with the program `u'`. -/
def PageFault (im : Image) (u : User) (tf : Trapframe) (faultVa : Word) (u' : User) : Prop :=
  ∃ b M cur d s s', InKernel im b M cur d u.mem s ∧ (s.envs cur).envTf = tf ∧ u.Trapped tf ∧ tf.tfCs &&& 3#16 ≠ 0#16 ∧
    UtfAccessible s d (utfAddr tf.tfEsp) ∧ (pageFaultHandler tf faultVa).run s = .error .envPopTf s' ∧ u' = s'.user cur

theorem PageFault.trapped (h : PageFault im u tf faultVa u') : u.Trapped tf := by
  obtain ⟨-, -, -, -, -, -, -, -, htf, -⟩ := h
  exact htf

/-- The page of an accepted frame may be written, all of it. -/
theorem UtfAccessible.xstack (h : UtfAccessible s d (utfAddr tf.tfEsp)) (hd : s.dir cur = some d) (hno : ¬ Overflows tf.tfEsp)
    (ha : OnXstack a) : Writable s cur a := by
  have hin : InUtf (utfAddr tf.tfEsp) (utfAddr tf.tfEsp) := by
    unfold InUtf
    rw [BitVec.sub_self]
    decide
  have hx := (utf_onXstack hno).1 _ hin
  exact ((h _ le_rfl (by omega)).writable hd hx.lt_utop).page ha.lt_utop (ha.pgnum hx)

theorem popTf_userMem (s : State) {v : Env} (hlive : (s.envs cur).envStatus ≠ .free) (hst : v.envStatus = (s.envs cur).envStatus)
    (hpd : v.envPgdir = (s.envs cur).envPgdir) : ((s.setEnv cur v).popTf cur d).userMem cur = s.userMem cur := by
  have hv : v.envStatus ≠ .free := by rw [hst]; exact hlive
  have hlive' : ((s.setEnv cur v).envs cur).envStatus ≠ .free := by
    rw [envs_setEnv, if_pos rfl]
    exact hv
  have hdir : ((s.setEnv cur v).popTf cur d).dir = s.dir := (popTf_dir hlive' d).trans (dir_setEnv hlive hv hpd)
  unfold State.userMem
  rw [userByte_congr hdir (popTf_mem (s.setEnv cur v) cur d)]

/-- What the kernel does to a program that faults is what `User.faulted` says. -/
theorem PageFault.faulted (h : PageFault im u tf faultVa u') (hno : ¬ Overflows tf.tfEsp) : u' = u.faulted im tf faultVa := by
  obtain ⟨b, M, cur, d, s, s', hk, hsaved, htf, hcs, hacc, hrun, rfl⟩ := h
  have hne : (s.envs cur).envPgfaultUpcall ≠ 0#32 := by
    rw [hk.upcall.1]
    exact hk.upcall.2
  obtain ⟨x, hacpt⟩ := pageFault_accepts hk.kern hk.loaded hk.current hne hcs faultVa hacc
  have hs : Loaded b M cur d { s with userMemCheckAddr := x } := ⟨hk.loaded.1.congr rfl rfl rfl rfl rfl rfl rfl, hk.loaded.2⟩
  obtain ⟨s₁, hpush, hpushed⟩ := pushUtf_run (s.envs cur).envPgfaultUpcall faultVa hs hk.locked hno hacc
  rw [hacpt, hpushed] at hrun
  cases hrun
  have hx : ∀ a, OnXstack a → Writable s cur a := fun a => hacc.xstack hk.loaded.2.1 hno
  have henvs : s₁.envs = s.envs := hpush.stored.rest.envs
  have hmem : s₁.userMem cur = u.mem.writes (utfAddr tf.tfEsp) (faultFrame tf faultVa).words := by
    rw [← hk.mem]
    exact hpush.userMem hs hk.once hx fun a ha => (utf_onXstack hno).1 a ha
  have hlive : (s₁.envs cur).envStatus ≠ .free := by
    rw [henvs]
    exact (dir_eq_some.1 hk.loaded.2.1).1
  have hafter := popTf_userMem (d := d) s₁
    (v := (s.envs cur).sentTo (s.envs cur).envPgfaultUpcall (utfAddr tf.tfEsp)) hlive
    (by rw [henvs]; rfl) (by rw [henvs]; rfl)
  unfold State.user User.faulted
  rw [popTf_sentTo, hafter, hmem, ← hk.upcall.1, ← hsaved]
  rfl

/-! ## The handler -/

/-- There is room for a fault with stack pointer `esp`: on the exception stack the frame, the scratch word and what the
upcall pushes fit the page; on another stack the word below `esp` is not on that page either, and is not to be kept. -/
def FaultRoom (K : Word → Prop) (esp : Word) : Prop :=
  if OnXstack esp then uxstacktop - pgsize + 64#32 ≤ esp
  else ∀ a, (a - (esp - 4#32)).toNat < 4 → ¬ OnXstack a ∧ ¬ K a

/-- What is to be kept of the exception stack is above the stack pointer. -/
def Fits (K : Word → Prop) (esp : Word) : Prop :=
  FaultRoom K esp ∧ ∀ a, K a → OnXstack a → OnXstack esp ∧ esp ≤ a

/-- The handler in C runs and leaves the bytes `K` alone. Its own code is any code; where it faults `R` holds of the
bytes that are kept and the stack pointer, and another run of the handler, which leaves its own frame alone too,
handles the fault. -/
inductive HandlerRuns (R : (Word → Prop) → Word → Prop) (im : Image) : (Word → Prop) → User → User → Prop where
  | refl {K : Word → Prop} {u : User} : HandlerRuns R im K u u
  | own {K : Word → Prop} {u v w : User} (h : ∀ a, K a → v.mem a = u.mem a) (hr : HandlerRuns R im K v w) : HandlerRuns R im K u w
  | fault {K : Word → Prop} {u u' v w : User} {tf : Trapframe} {faultVa : Word} (hroom : R K u.esp)
    (hp : PageFault im u tf faultVa u')
      (hh : HandlerRuns R im (fun a => K a ∨ InUtf (utfAddr tf.tfEsp) a) (execAll im pgfaultUpcall u') v)
      (hret : v.eip = im.afterCall ∧ v.esp = utfAddr tf.tfEsp - 4#32)
      (hr : HandlerRuns R im K (execAll im pgfaultReturn v) w) : HandlerRuns R im K u w

theorem FaultRoom.on {esp : Word} (h : FaultRoom K esp) (hx : OnXstack esp) : 0xEEBFF040 ≤ esp.toNat := by
  unfold FaultRoom at h
  rw [if_pos hx, BitVec.le_def] at h
  exact h

theorem FaultRoom.not_overflows {esp : Word} (h : FaultRoom K esp) : ¬ Overflows esp := by
  rintro ⟨hx, hlt⟩
  have hlo : (uxstacktop - pgsize + 56#32).toNat = 0xEEBFF038 := by decide
  have hroom := h.on hx
  rw [BitVec.lt_def] at hlt
  omega

theorem Fits.clear {esp : Word} (h : Fits K esp) : Clear K (utfAddr esp) esp := by
  obtain ⟨hroom, hk⟩ := h
  by_cases hx : OnXstack esp
  · have hlo := hroom.on hx
    rw [utfAddr_nested hx]
    rw [onXstack_iff] at hx
    refine ⟨by bv_omega, by bv_omega, by bv_omega, fun a ha => ?_⟩
    by_cases hxa : OnXstack a
    · have hle := (hk a ha hxa).2
      rw [onXstack_iff] at hxa
      rw [BitVec.le_def] at hle
      constructor <;> bv_omega
    · rw [onXstack_iff] at hxa
      constructor <;> bv_omega
  · unfold FaultRoom at hroom
    rw [if_neg hx] at hroom
    rw [utfAddr_first hx]
    have htop : uxstacktop.toNat = 0xEEC00000 := by decide
    have h0 := (hroom (esp - 4#32) (by rw [BitVec.sub_self]; decide)).1
    have h3 := (hroom (esp - 1#32) (by bv_omega)).1
    rw [onXstack_iff] at h0 h3
    generalize uxstacktop = top at htop
    refine ⟨by bv_omega, by bv_omega, by bv_omega, fun a ha => ?_⟩
    have hxa : ¬ OnXstack a := fun hxa => hx (hk a ha hxa).1
    rw [onXstack_iff] at hxa
    exact ⟨by bv_omega, not_lt.1 fun hlt => (hroom a hlt).2 ha⟩

/-- A fault that fits, up to the handler and from its return on. -/
theorem PageFault.back (hp : PageFault im u tf faultVa u') (hfit : Fits K u.esp) (hesp : v.esp = utfAddr tf.tfEsp - 4#32)
    (hv : ∀ a, K a ∨ InUtf (utfAddr tf.tfEsp) a → v.mem a = (execAll im pgfaultUpcall u').mem a) :
    (execAll im pgfaultReturn v = { u with
      regs := { u.regs with regOesp := v.regs.regOesp }
      mem := (execAll im pgfaultReturn v).mem }) ∧
    ∀ a, K a → (execAll im pgfaultReturn v).mem a = u.mem a := by
  rw [← hp.trapped.esp] at hfit
  rw [hp.faulted hfit.1.not_overflows] at hv
  exact returned hp.trapped hfit.clear hesp hv

/-- A run of the handler leaves alone what its own code leaves alone, whatever faults it takes. -/
theorem HandlerRuns.keeps (h : HandlerRuns Fits im K u v) : ∀ a, K a → v.mem a = u.mem a := by
  induction h with
  | refl => exact fun _ _ => rfl
  | own h _ ih => exact fun a ha => (ih a ha).trans (h a ha)
  | fault hfit hp _ hret _ ihh ihr =>
    have hback := hp.back hfit hret.2 ihh
    exact fun a ha => (ihr a ha).trans (hback.2 a ha)

/-! ## A program with a stack and an exception stack -/

/-- The page of the exception stack is mapped, and the user may write it. -/
def XstackMapped (s : State) (cur : Slot) : Prop :=
  ∃ w, s.pte cur (pdx (uxstacktop - pgsize)) (ptx (uxstacktop - pgsize)) = some w ∧
    w &&& (pteU ||| pteW ||| pteU ||| pteP) = pteU ||| pteW ||| pteU ||| pteP

/-- Some kernel has a program with the memory `m` and a page for its exception stack. -/
def Present (im : Image) (m : Bytes) : Prop := ∃ b M cur d s, InKernel im b M cur d m s ∧ XstackMapped s cur

theorem XstackMapped.accessible (hx : XstackMapped s cur) (hd : s.dir cur = some d) (ha : OnXstack a) :
    Accessible s d (pteU ||| pteW) a.toNat := by
  obtain ⟨w, hw, hperm⟩ := hx
  have hpg : pgnum a = pgnum (uxstacktop - pgsize) := ha.pgnum (by decide)
  obtain ⟨hi, hj⟩ := (idx_eq_iff _ _).2 hpg
  rw [← hi, ← hj] at hw
  obtain ⟨n, htab, hmem, hp⟩ := pte_eq_some.1 hw
  rw [tab_of_dir hd ha.lt_utop, dec_eq_some] at htab
  obtain ⟨hpde, rfl⟩ := htab
  have hlt := (onXstack_iff.1 ha).2
  have hul : ulim.toNat = 0xef800000 := by decide
  refine ⟨by omega, ?_, w, ?_, hp, hperm⟩
  · rw [BitVec.ofNat_toNat, BitVec.setWidth_eq]
    exact hpde
  · rw [BitVec.ofNat_toNat, BitVec.setWidth_eq]
    exact hmem.symm

theorem XstackMapped.utf (hx : XstackMapped s cur) (hd : s.dir cur = some d) (hno : ¬ Overflows tf.tfEsp) :
    UtfAccessible s d (utfAddr tf.tfEsp) := by
  intro a h1 h2
  have hle := utfAddr_le tf.tfEsp
  have hu : utop.toNat = 0xeec00000 := utop_toNat
  have ha : (BitVec.ofNat 32 a).toNat = a := by rw [BitVec.toNat_ofNat, Nat.mod_eq_of_lt (by omega)]
  have hon := (utf_onXstack hno).1 (BitVec.ofNat 32 a) (by
    unfold InUtf
    generalize BitVec.ofNat 32 a = x at ha
    bv_omega)
  have hacc := hx.accessible hd hon
  rw [ha] at hacc
  exact hacc

/-- Words that the program writes on its exception stack. -/
theorem Present.writes (h : Present im m) (hon : ∀ a, (a - va).toNat < 4 * ws.length → OnXstack a)
    (hlen : 4 * ws.length < 2 ^ 32) :
    Present im (m.writes va ws) := by
  obtain ⟨b, M, cur, d, s, hk, hx⟩ := h
  have hw : ∀ a, OnXstack a → Writable s cur a := fun a ha =>
    (hx.accessible hk.loaded.2.1 ha).writable hk.loaded.2.1 ha.lt_utop
  obtain ⟨s', -, hp⟩ := Pushing.words hk.loaded va ws 0 s s.byteAt (.refl hk.loaded)
    (fun a ha => by
      rw [Nat.mul_zero, BitVec.add_zero] at ha
      exact ⟨hon a ha, hw a (hon a ha)⟩) hlen
  rw [Nat.mul_zero, BitVec.add_zero] at hp
  have hr := hp.stored.rest
  have hpte := hp.stored.pte
  refine ⟨b, M, cur, d, s', ⟨hk.kern, hp.stored.loaded, ?_, ?_, ?_, ?_, ?_⟩, ?_⟩
  · unfold MappedOnce
    rw [hpte]
    exact hk.once
  · rw [← hk.current]
    unfold State.curenv
    rw [hr.cpuEnv, hr.cpunum]
  · rw [hr.kernelLock, hr.cpunum]
    exact hk.locked
  · rw [hr.envs]
    exact hk.upcall
  · rw [hp.userMem hk.loaded hk.once hw hon, hk.mem]
  · unfold XstackMapped
    rw [hpte]
    exact hx

theorem Present.write (h : Present im m) (hlo : 0xEEBFF000 ≤ va.toNat) (hhi : va.toNat ≤ 0xEEBFFFFC) (x : Word) :
    Present im (m.write va x) := by
  show Present im (m.writes va [x])
  refine h.writes (fun a ha => ?_) (by decide : 4 * 1 < 2 ^ 32)
  rw [List.length_singleton] at ha
  rw [onXstack_iff]
  constructor <;> bv_omega

/-- The memory that the handler finds. -/
theorem Present.entered (h : Present im u.mem) (hroom : FaultRoom K tf.tfEsp) (faultVa : Word) :
    Present im (execAll im pgfaultUpcall (u.faulted im tf faultVa)).mem := by
  have hframe : Present im (u.faulted im tf faultVa).mem :=
    h.writes (fun a ha => (utf_onXstack hroom.not_overflows).1 a ha) (by decide : 4 * 13 < 2 ^ 32)
  have hutf : 0xEEBFF008 ≤ (utfAddr tf.tfEsp).toNat ∧ (utfAddr tf.tfEsp).toNat ≤ 0xEEBFFFCC := by
    by_cases hx : OnXstack tf.tfEsp
    · have hlo := hroom.on hx
      rw [utfAddr_nested hx]
      rw [onXstack_iff] at hx
      constructor <;> bv_omega
    · rw [utfAddr_first hx]
      decide
  have hesp : (u.faulted im tf faultVa).esp = utfAddr tf.tfEsp := rfl
  rw [upcall_mem, hesp]
  exact (hframe.write (by bv_omega) (by bv_omega) _).write (by bv_omega) (by bv_omega) _

/-- The first environment has pages for its exception stack and its stack. -/
def stacksMap : State := finalState ((Op.allocInsert 0#32 0 (ustacktop - pgsize) (pteU ||| pteW)).exec.run xstackMap)

/-- The variable `_pgfault_handler` is 0. -/
def demoImage : Image := { handlerVar := 0x802000#32, upcall := utext, afterCall := 0x80000a#32, flags := fun u _ => u.eflags }

/-- A program on its stack. -/
def faulting : User :=
  { regs := { regEax := 7#32 }, eip := 0x800020#32, eflags := 0x202#32, esp := 0xEEBFDFF0#32, mem := stacksMap.inTrap.userMem 0 }

/-- The trap frame of a fault in `u`. -/
def User.frame (u : User) : Trapframe :=
  { tfRegs := u.regs, tfEip := u.eip, tfCs := gdUt ||| 3#16, tfEflags := u.eflags, tfEsp := u.esp, tfTrapno := tPgflt }

/-- The handler returns at once. -/
def User.back (im : Image) (u : User) : User := { u with eip := im.afterCall, esp := u.esp + 4#32 }

theorem User.trapped (u : User) : u.Trapped u.frame := ⟨rfl, rfl, rfl, rfl⟩

theorem HandlerRuns.back {R : (Word → Prop) → Word → Prop} (u : User) : HandlerRuns R im K u (u.back im) :=
  .own (v := u.back im) (fun _ _ => rfl) .refl

/-- In the handler of a fault of `faulting`. -/
def handling : User := execAll demoImage pgfaultUpcall (faulting.faulted demoImage faulting.frame 0#32)

/-- The handler has moved its stack pointer to `esp`. -/
def moved (esp : Word) : User := { handling with esp := esp, eip := 0x800200#32 }

end Jos
