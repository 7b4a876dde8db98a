/-
Loading a program, in kern/env.c: `region_alloc` and `load_icode`. The ELF image is the kernel's memory from
`binary` on, so it is read by the distance from `binary`.
-/
import Jos.Kern.Trap
import Jos.Lib.Bytes

namespace Jos

open Lib Kern

/-! ## The ELF image -/

/-- `ELF_MAGIC`. -/
def elfMagic : Word := 0x464C457F#32

/-- `ELF_PROG_LOAD`. -/
def elfProgLoad : Word := 1#32

/-- The fields of `struct Elf` that `load_icode` reads. -/
structure Elf where
  eMagic : Word
  eEntry : Word
  ePhoff : Word
  ePhnum : BitVec 16

/-- The fields of `struct Proghdr` that `load_icode` reads. -/
structure Proghdr where
  pType : Word
  pOffset : Word
  pVa : Word
  pFilesz : Word
  pMemsz : Word
  deriving DecidableEq

def elfhdr (binary : Bytes) : Elf where
  eMagic := binary.read 0#32
  eEntry := binary.read 24#32
  ePhoff := binary.read 28#32
  ePhnum := binary 45#32 ++ binary 44#32

def proghdr (binary : Bytes) (ph : Word) : Proghdr where
  pType := binary.read ph
  pOffset := binary.read (ph + 4#32)
  pVa := binary.read (ph + 8#32)
  pFilesz := binary.read (ph + 16#32)
  pMemsz := binary.read (ph + 20#32)

/-- The program headers from `ph` to `eph`; a header has 32 bytes. -/
def proghdrs (binary : Bytes) : List Proghdr :=
  (List.range (elfhdr binary).ePhnum.toNat).map fun k => proghdr binary ((elfhdr binary).ePhoff + BitVec.ofNat 32 (32 * k))

/-! ## Loading -/

/-- The values of `i` in the loop of `region_alloc`: it ends at a multiple of `PGSIZE`, so `i` does not wrap. -/
def regionPages (va len : Word) : List Word :=
  let start := rounddown va pgsize
  let stop := roundup (va + len) pgsize
  (List.range ((stop.toNat - start.toNat + 4095) / 4096)).map fun k => start + BitVec.ofNat 32 (4096 * k)

/-- A turn of the loop of `region_alloc`; what `page_insert` returns is not looked at. -/
def regionAllocPage (e : Slot) (i : Word) : Kern Unit := do
  match ← pageAlloc 1#32 with
  | none => panic
  | some p =>
    let pgdir ← derefPage (← env e).envPgdir
    let _ ← pageInsert pgdir p i (pteW ||| pteU)
    return ()

def regionAlloc (e : Slot) (va len : Word) : Kern Unit := (regionPages va len).forM (regionAllocPage e)

/-- The bytes `src 0`, .. `src (n - 1)` stored at `va`. -/
def storeBytes (va : Word) (n : Nat) (src : Nat → BitVec 8) : Kern Unit :=
  (List.range n).forM fun k => storeByte (va + BitVec.ofNat 32 k) (src k)

def memset (v : Word) (c : BitVec 8) (n : Word) : Kern Unit := storeBytes v n.toNat fun _ => c

/-- `memmove(dst, binary + offset, n)`: the image is no user memory. -/
def memmove (dst : Word) (binary : Bytes) (offset n : Word) : Kern Unit :=
  storeBytes dst n.toNat fun k => binary (offset + BitVec.ofNat 32 k)

/-- The body of the loop of `load_icode`. -/
def loadSegment (e : Slot) (binary : Bytes) (ph : Proghdr) : Kern Unit := do
  if ph.pType = elfProgLoad then
    regionAlloc e ph.pVa ph.pMemsz
    memset ph.pVa 0#8 ph.pMemsz
    memmove ph.pVa binary ph.pOffset ph.pFilesz

/-- The code does not look at the size of the image. -/
def loadIcode (e : Slot) (binary : Bytes) (_size : Word) : Kern Unit := do
  if (elfhdr binary).eMagic ≠ elfMagic then
    panic
  lcr3 (← paddr (← env e).envPgdir)
  (proghdrs binary).forM (loadSegment e binary)
  lcr3 (← paddr (some (← get).kernPgdir))
  modifyEnv e fun v => { v with envTf := { v.envTf with tfEip := (elfhdr binary).eEntry } }
  regionAlloc e (ustacktop - pgsize) pgsize

end Jos
