/-
`debuginfo_eip` of kern/kdebug.c behind the validity checks: two searches, the names, and the scans back to the file and
over the arguments. Beside each search stands the list of the fields of the table that it reads.
-/
import Jos.Debug.Stabs
import Jos.Lib.Bytes

namespace Jos

open Lib

/-- `struct Stab`, with the index of its name. -/
structure StabEntry extends Stab where
  nStrx : Word

inductive StabField where
  | strx
  | type
  | value
  deriving DecidableEq

/-- The entry and the field of it. -/
abbrev StabRead := Int × StabField

def nFun : Int := 0x24
def nSo : Int := 0x64
def nSol : Int := 0x84
def nPsym : Int := 0xa0

/-! ## What the searches read -/

section Reads

variable (stabs : Int → Stab) (type : Int)

def scanReads (lo m : Int) : List StabRead :=
  if lo < m then
    if (stabs m).Is type then [(m, .type)] else (m, .type) :: scanReads lo (m - 1)
  else []
termination_by (m - lo).toNat

def loopReads (s : Search) : List StabRead :=
  if s.l ≤ s.r then
    let trueM := (s.l + s.r) / 2
    let m := scan stabs type (s.l - 1) trueM
    let types := scanReads stabs type (s.l - 1) trueM
    if m < s.l then
      types ++ loopReads { s with l := trueM + 1 }
    else if (stabs m).nValue < s.addr then
      types ++ (m, .value) :: loopReads { s with anyMatches := true, left := m, l := trueM + 1 }
    else if (stabs m).nValue > s.addr then
      types ++ (m, .value) :: loopReads { s with anyMatches := true, right := m - 1, r := m - 1 }
    else
      types ++ (m, .value) :: loopReads { s with anyMatches := true, left := m, l := m, addr := s.addr + 1#32 }
  else []
termination_by 2 * (s.r + 1 - s.l).toNat + (if (stabs s.l).nValue = s.addr then 1 else 0)
decreasing_by
  · split <;> split <;> omega
  · split <;> split <;> omega
  · have hle := scan_le stabs type (s.l - 1) ((s.l + s.r) / 2)
    show 2 * (scan stabs type (s.l - 1) ((s.l + s.r) / 2) - 1 + 1 - s.l).toNat + _ < _
    omega
  · rename_i hnot hlt hgt
    have heq : (stabs m).nValue = s.addr := BitVec.le_antisymm (BitVec.not_lt.1 hgt) (BitVec.not_lt.1 hlt)
    show 2 * (s.r + 1 - m).toNat + (if (stabs m).nValue = s.addr + 1#32 then 1 else 0) < _
    have hne : (stabs m).nValue ≠ s.addr + 1#32 := by rw [heq]; bv_omega
    rw [if_neg hne]
    by_cases hml : m = s.l
    · rw [← hml, if_pos heq]
      omega
    · split <;> omega

def binsearchReads (regionLeft regionRight : Int) (addr : Word) : List StabRead :=
  let start : Search := ⟨regionLeft, regionRight, false, regionLeft, regionRight, addr⟩
  let s := stabLoop stabs type start
  loopReads stabs type start ++ if s.anyMatches then scanReads stabs type s.left s.right else []

end Reads

/-! ## The tables -/

/-- The stab table, of `n` entries, and the string table, in memory. -/
structure StabTab where
  stabs : Int → StabEntry
  n : Int
  stabstr : Word
  stabstrEnd : Word
  mem : Bytes

/-- A string pointer of `*info`: to the constant `"<unknown>"`, or an address. -/
inductive StrPtr where
  | unknown
  | str (p : Word)

/-- `struct Eipdebuginfo`. -/
structure EipInfo where
  eipFile : StrPtr := .unknown
  eipLine : Int := 0
  eipFnName : StrPtr := .unknown
  eipFnNamelen : Nat := 9
  eipFnAddr : Word
  eipFnNarg : Nat := 0

/-- What the call returns and stores, and what it reads of the two tables. -/
structure EipRun where
  ret : Int
  info : EipInfo
  reads : List StabRead := []
  strReads : List Word := []

variable (t : StabTab)

def StabTab.toStabs (t : StabTab) : Int → Stab := fun i => (t.stabs i).toStab

/-- `stabstr + stabs[i].n_strx`, or `old` where the index is outside the table. The sizes are compared without sign. -/
def StabTab.name (i : Int) (old : StrPtr) : StrPtr :=
  if (t.stabs i).nStrx.toNat < (t.stabstrEnd - t.stabstr).toNat then .str (t.stabstr + (t.stabs i).nStrx) else old

/-- The bytes up to the first `c` or NUL from `p` on, of `k` at most. -/
def strfind (mem : Bytes) (c : BitVec 8) : Nat → Word → List Word
  | 0, _ => []
  | k + 1, p => p :: if mem p = 0#8 ∨ mem p = c then [] else strfind mem c k (p + 1#32)

/-- The bytes that `strfind(eip_fn_name, ':')` reads. -/
def StabTab.nameReads : StrPtr → List Word
  | .unknown => []
  | .str p => strfind t.mem 0x3a#8 (t.stabstrEnd - p).toNat p

/-- The scan back from the line to the file. -/
def StabTab.toFile (lfile lline : Int) : Int × List StabRead :=
  if lfile ≤ lline then
    if (t.stabs lline).Is nSol then (lline, [(lline, .type)])
    else if ¬ (t.stabs lline).Is nSo then
      let r := toFile lfile (lline - 1)
      (r.1, (lline, .type) :: r.2)
    else if (t.stabs lline).nValue = 0#32 then
      let r := toFile lfile (lline - 1)
      (r.1, (lline, .type) :: (lline, .value) :: r.2)
    else (lline, [(lline, .type), (lline, .value)])
  else (lline, [])
termination_by (lline + 1 - lfile).toNat

/-- The scan over the arguments, up to `rfun`. -/
def StabTab.args (lline rfun : Int) : Nat × List StabRead :=
  if lline < rfun then
    if (t.stabs lline).Is nPsym then
      let r := args (lline + 1) rfun
      (r.1 + 1, (lline, .type) :: r.2)
    else (0, [(lline, .type)])
  else (0, [])
termination_by (rfun - lline).toNat

/-- From the end of the second search on. -/
def StabTab.describe (addr : Word) (lfile lfun rfun : Int) : EipRun :=
  let found := lfun ≤ rfun
  let fnName := if found then t.name lfun .unknown else .unknown
  let lline := if found then lfun else lfile
  let nameReads := t.nameReads fnName
  let file := t.toFile lfile lline
  let args := if lfun < rfun then t.args (lfun + 1) rfun else (0, [])
  { ret := 0
    info :=
      { eipFile := if lfile ≤ file.1 then t.name file.1 .unknown else .unknown
        eipFnName := fnName
        eipFnNamelen := match fnName with
          | .unknown => 9
          | .str _ => nameReads.length - 1
        eipFnAddr := if found then (t.stabs lfun).nValue else addr
        eipFnNarg := args.1 }
    reads := (if found then [(lfun, .strx), (lfun, .value)] else []) ++ file.2 ++
      (if lfile ≤ file.1 then [(file.1, .strx)] else []) ++ args.2
    strReads := nameReads }

/-- `debuginfo_eip` from the validity of the string table on. -/
def StabTab.debuginfo (addr : Word) : EipRun :=
  let info : EipInfo := { eipFnAddr := addr }
  if t.stabstrEnd ≤ t.stabstr then { ret := -1, info }
  else if t.mem (t.stabstrEnd - 1#32) ≠ 0#8 then { ret := -1, info, strReads := [t.stabstrEnd - 1#32] }
  else
    let file := stabBinsearch t.toStabs nSo 0 (t.n - 1) addr
    let reads := binsearchReads t.toStabs nSo 0 (t.n - 1) addr
    if file.1 = 0 then { ret := -1, info, reads, strReads := [t.stabstrEnd - 1#32] }
    else
      let fn := stabBinsearch t.toStabs nFun file.1 file.2 addr
      let r := t.describe addr file.1 fn.1 fn.2
      { r with
        reads := reads ++ binsearchReads t.toStabs nFun file.1 file.2 addr ++ r.reads
        strReads := (t.stabstrEnd - 1#32) :: r.strReads }

end Jos
