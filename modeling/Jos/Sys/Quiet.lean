/-
The programs of kern/pmap.c never touch an environment, the CPUs' current environments or the lock,
whatever the state they start in, and they stop only in a panic. So what a call does to the
environments can be read off the few places that write to a record.
-/
import Jos.Sys.Calls

namespace Jos

open Lib Kern

variable {α β : Type} {s s' : State} {e : Slot}

/-- The program leaves the environments, the CPUs' current environments and the lock alone. -/
abbrev Quiet (x : Kern α) : Prop := Keeps Rest (· = Stop.panic) x

theorem quiet_pure (a : α) : Quiet (pure a : Kern α) := .pure Rest.refl a

theorem quiet_panic : Quiet (panic : Kern α) := .throw Rest.refl rfl

theorem quiet_bind {x : Kern α} {f : α → Kern β} (hx : Quiet x) (hf : ∀ a, Quiet (f a)) : Quiet (x >>= f) :=
  hx.bind (fun _ _ _ => Rest.trans) hf

theorem quiet_modify {f : State → State} (hf : ∀ s, Rest s (f s)) : Quiet (modify f : Kern Unit) := .modify hf

theorem quiet_get {f : State → Kern β} (hf : ∀ s, Quiet (f s)) : Quiet (get >>= f) := .get fun s => hf s s

theorem quiet_load (p : Nat × Idx) : Quiet (load p) := fun s => .of_ok rfl (.refl s)

theorem quiet_env (e : Slot) : Quiet (env e) := fun s => .of_ok rfl (.refl s)

theorem quiet_deref (e : Option Slot) : Quiet (deref e) := by
  cases e with
  | none => exact quiet_panic
  | some e => exact quiet_pure e

theorem quiet_derefPage (kva : Option Nat) : Quiet (derefPage kva) := by
  cases kva with
  | none => exact quiet_panic
  | some f => exact quiet_pure f

theorem rest_setMem (s : State) (f : Nat) (p : Idx → Word) : Rest s (s.setMem f p) :=
  ⟨rfl, rfl, rfl, rfl, rfl, rfl, fun _ => rfl, fun _ => rfl⟩

theorem quiet_store (p : Nat × Idx) (w : Word) : Quiet (store p w) := quiet_modify fun s => rest_setWord s _ _ _

theorem quiet_zeroPage (f : Nat) : Quiet (zeroPage f) := quiet_modify fun s => rest_setMem s _ _

theorem quiet_lcr3 (pa : Word) : Quiet (lcr3 pa) := quiet_modify fun _ => rest_setCpu rfl rfl

theorem quiet_kaddr (pa : Word) : Quiet (kaddr pa) :=
  quiet_get fun _ => .ite (fun _ => quiet_panic) fun _ => quiet_pure _

theorem quiet_pa2page (pa : Word) : Quiet (pa2page pa) := quiet_kaddr pa

theorem quiet_paddr (kva : Option Nat) : Quiet (paddr kva) := by
  cases kva with
  | none => exact quiet_panic
  | some f => exact quiet_pure _

/-! ## The page functions -/

theorem quiet_pageAlloc (allocFlags : Word) : Quiet (pageAlloc allocFlags) := by
  refine .get fun s => ?_
  cases hl : s.pageFreeList with
  | none => exact .of_ok rfl (.refl s)
  | some p =>
    dsimp only
    have hset : Rest s { s with pageFreeList := (s.pages p).ppLink } := ⟨rfl, rfl, rfl, rfl, rfl, rfl, fun _ => rfl, fun _ => rfl⟩
    refine KeepsAt.bind (fun _ _ _ => Rest.trans) (.of_ok rfl hset) fun _ s' _ => ?_
    refine (?_ : Quiet _) s'
    exact .ite (fun _ => quiet_bind (quiet_kaddr _) fun q => quiet_bind (quiet_zeroPage q) fun _ => quiet_pure _)
      fun _ => quiet_pure _

theorem quiet_pageFree (pp : Nat) : Quiet (pageFree pp) := by
  refine .get fun s => ?_
  dsimp only
  split
  · exact .of_ok rfl ⟨rfl, rfl, rfl, rfl, rfl, rfl, fun _ => rfl, fun _ => rfl⟩
  · exact .of_ok rfl (.refl s)

theorem quiet_pageDecref (pp : Nat) : Quiet (pageDecref pp) :=
  quiet_bind (quiet_modify fun s => rest_setRef s _ _) fun _ =>
    quiet_get fun _ => .ite (fun _ => quiet_pageFree pp) fun _ => quiet_pure _

theorem quiet_invlpg (va : Word) : Quiet (invlpg va) := quiet_modify fun _ => rest_setCpu rfl rfl

theorem quiet_tlbInvalidate (pgdir : Nat) (va : Word) : Quiet (tlbInvalidate pgdir va) := by
  refine quiet_get fun s => ?_
  cases s.curenv with
  | none => exact quiet_invlpg va
  | some e => exact .ite (fun _ => quiet_invlpg va) fun _ => quiet_pure _

theorem quiet_pgdirWalk (pgdir : Nat) (va : Word) (create : Bool) : Quiet (pgdirWalk pgdir va create) := by
  refine quiet_bind (quiet_load _) fun pde => .ite (fun _ => ?_) fun _ => .ite (fun _ => quiet_pure _) fun _ => ?_
  · exact quiet_bind (quiet_kaddr _) fun _ => quiet_pure _
  · refine quiet_bind (quiet_pageAlloc _) fun p => ?_
    cases p with
    | none => exact quiet_pure _
    | some temp =>
      exact quiet_bind (quiet_modify fun s => rest_setRef s _ _) fun _ => quiet_bind (quiet_kaddr _) fun _ =>
        quiet_bind (quiet_store _ _) fun _ => quiet_pure _

theorem quiet_pageLookup (pgdir : Nat) (va : Word) : Quiet (pageLookup pgdir va) := by
  refine quiet_bind (quiet_pgdirWalk _ _ _) fun q => ?_
  cases q with
  | none => exact quiet_pure _
  | some temp =>
    exact quiet_bind (quiet_load _) fun pte => .ite
      (fun _ => quiet_bind (quiet_pa2page _) fun _ => quiet_pure _) fun _ => quiet_pure _

theorem quiet_pageRemove (pgdir : Nat) (va : Word) : Quiet (pageRemove pgdir va) := by
  refine quiet_bind (quiet_pageLookup _ _) fun q => ?_
  rcases q with ⟨_ | temp, _ | pte⟩
  · exact quiet_pure _
  · exact quiet_pure _
  · exact quiet_pure _
  · exact quiet_bind (quiet_pageDecref _) fun _ => quiet_bind (quiet_tlbInvalidate _ _) fun _ => quiet_store _ _

theorem quiet_pageInsert (pgdir pp : Nat) (va perm : Word) : Quiet (pageInsert pgdir pp va perm) := by
  refine quiet_bind (quiet_pgdirWalk _ _ _) fun q => ?_
  cases q with
  | none => exact quiet_pure _
  | some pte =>
    have hend : Quiet (do
        modify fun s => s.setRef pp ((s.pages pp).ppRef + 1#16)
        store pte (page2pa pp ||| perm ||| pteP)
        return (0 : Int) : Kern Int) :=
      quiet_bind (quiet_modify fun s => rest_setRef s _ _) fun _ => quiet_bind (quiet_store _ _) fun _ => quiet_pure _
    refine quiet_bind (quiet_load _) fun old => .ite (fun _ => .ite (fun _ => ?_) fun _ => ?_) fun _ => hend
    · exact quiet_bind (quiet_modify fun s => rest_setRef s _ _) fun _ => quiet_bind (quiet_tlbInvalidate _ _) fun _ => hend
    · exact quiet_bind (quiet_pageRemove _ _) fun _ => hend

theorem quiet_userMemCheck (e : Slot) (va len perm : Word) : Quiet (userMemCheck e va len perm) := by
  intro s
  rcases userMemCheck_reads (s := s) e va len perm with ⟨r, a, hrun⟩ | hrun
  · exact .of_ok hrun ⟨rfl, rfl, rfl, rfl, rfl, rfl, fun _ => rfl, fun _ => rfl⟩
  · exact .of_error hrun (.refl s) rfl

/-! ## Taking down an address space -/

theorem quiet_envFlush (e : Slot) : Quiet (envFlush e) := by
  refine quiet_bind (quiet_env e) fun v => quiet_bind (quiet_derefPage _) fun pgdir => ?_
  refine .forM Rest.refl (fun _ _ _ => Rest.trans) (fun pdeno => ?_) _
  refine quiet_bind (quiet_load _) fun pde => .ite (fun _ => ?_) fun _ => quiet_pure _
  refine quiet_bind (quiet_kaddr _) fun pt => quiet_bind ?_ fun _ => quiet_bind (quiet_store _ _) fun _ =>
    quiet_bind (quiet_pa2page _) fun _ => quiet_pageDecref _
  refine .forM Rest.refl (fun _ _ _ => Rest.trans) (fun pteno => ?_) _
  exact quiet_bind (quiet_load _) fun _ => .ite (fun _ => quiet_pageRemove _ _) fun _ => quiet_pure _

end Jos
