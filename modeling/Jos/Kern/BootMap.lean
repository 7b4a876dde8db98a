/-
The static mappings of kern/pmap.c: `boot_map_region`, and the calls of it that `mem_init` and
`mem_init_mp` make. The addresses of the arrays that `mem_init` maps are parameters.
-/
import Jos.Kern.Pmap

namespace Jos

open Kern

/-- `KSTKSIZE`. -/
def kstksize : Word := 8#32 * pgsize

/-- `KSTKGAP`. -/
def kstkgap : Word := 8#32 * pgsize

/-- `sizeof(struct PageInfo)`. -/
def sizeofPageInfo : Nat := 8

/-- `sizeof(struct Env)`. -/
def sizeofEnv : Nat := 124

/-- The loop of `boot_map_region`: the counter is an `int` that wraps, and it is compared with the size as an unsigned
number. It has `2 ^ 20` values: a loop that takes more turns does not end, and without fuel there is no result. -/
def bootMapLoop (pgdir : Nat) (size perm : Word) : Nat → Word → Word → Word → Kern Unit
  | 0, _, _, _ => panic
  | fuel + 1, i, va, pa => do
    if i < size then
      -- the pointer is not looked at: a null pointer faults
      match ← pgdirWalk pgdir va true with
      | none => panic
      | some pte =>
        store pte (pa ||| perm ||| pteP)
        bootMapLoop pgdir size perm fuel (i + pgsize) (va + pgsize) (pa + pgsize)

def bootMapRegion (pgdir : Nat) (va size pa perm : Word) : Kern Unit :=
  bootMapLoop pgdir size perm (2 ^ 20 + 1) 0#32 va pa

/-- The physical addresses of what `mem_init` maps: `boot_alloc` returns whole pages, and the stacks are aligned to
pages. -/
structure BootArrays where
  pages : Word
  envs : Word
  bootstack : Word
  percpuKstacks : Cpu → Word
  pages_page : pages.toNat % 4096 = 0
  envs_page : envs.toNat % 4096 = 0
  bootstack_page : bootstack.toNat % 4096 = 0
  percpuKstacks_page : ∀ i, (percpuKstacks i).toNat % 4096 = 0

/-- `kern_pgdir` before the calls: its own mapping, readable by the user. -/
def initialPgdir (kernPgdir : Nat) (i : Idx) : Word :=
  if i = pdx uvpt then page2pa kernPgdir ||| pteU ||| pteP else 0#32

def memInitMp (kernPgdir : Nat) (percpuKstacks : Cpu → Word) : Kern Unit :=
  (List.finRange 8).forM fun i =>
    bootMapRegion kernPgdir (kstacktop - BitVec.ofNat 32 i.val * (kstksize + kstkgap) - kstksize) kstksize
      (percpuKstacks i) pteW

/-- The calls of `boot_map_region` in `mem_init`. -/
def memInitMaps (kernPgdir npages : Nat) (a : BootArrays) : Kern Unit := do
  bootMapRegion kernPgdir upages (BitVec.ofNat 32 (npages * sizeofPageInfo)) a.pages pteU
  bootMapRegion kernPgdir uenvs (roundup (BitVec.ofNat 32 (nenv * sizeofEnv)) pgsize) a.envs pteU
  bootMapRegion kernPgdir (kstacktop - kstksize) kstksize a.bootstack pteW
  bootMapRegion kernPgdir kernbase 0xfffffff#32 0#32 pteW
  memInitMp kernPgdir a.percpuKstacks

end Jos
