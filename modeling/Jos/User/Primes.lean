/-
user/primes.c: a row of environments, each of which forks its right neighbour and passes on to it what its own prime does
not divide. The environments run in any order, and an `ipc_send` ends when an `ipc_recv` has the value: the other turns of
its loop change nothing (`ipcSend_meets` of `Run.LibIpc`). Of a line that is printed only the prime is kept, not the CPU.
-/
import Jos.Lib.Sieve
import Jos.Mmu.Word

namespace Jos

open Lib

/-! ## The program -/

/-- Where an environment stands: `umain` at its `fork` and at `ipc_send(id, i)`; `primeproc` at its first `ipc_recv`, at
`cprintf`, at `fork`, at the `ipc_recv` of its loop and at `ipc_send(id, i)`. -/
inductive PrimePoint where
  | mainFork
  | mainSend (i : Word)
  | top
  | print (p : Word)
  | fork (p : Word)
  | recv (p : Word)
  | send (p i : Word)
  | panicked
  deriving DecidableEq

/-- An environment and its variable `id`, an index in the list of environments. -/
structure PrimeEnv where
  point : PrimePoint
  id : Nat := 0
  deriving DecidableEq

/-- All environments in the order of their `fork`, and what they have printed. -/
structure Pipeline where
  envs : List PrimeEnv
  out : List Word

/-- What an environment goes on with when its `fork` has returned. -/
def PrimePoint.forked : PrimePoint → Option PrimePoint
  | .mainFork => some (.mainSend 2#32)
  | .fork p => some (.recv p)
  | _ => none

/-- The value that an environment sends and where it stands afterwards. At the largest `int`, `i++` is undefined. -/
def PrimePoint.sent : PrimePoint → Option (Word × PrimePoint)
  | .mainSend i => if i = 0x7fffffff#32 then none else some (i, .mainSend (i + 1#32))
  | .send p i => some (i, .recv p)
  | _ => none

/-- `i = ipc_recv(..)`. In the loop the remainder is undefined for two pairs of operands. -/
def PrimePoint.received (i : Word) : PrimePoint → Option PrimePoint
  | .top => some (.print i)
  | .recv p =>
    if p = 0#32 ∨ (i = 0x80000000#32 ∧ p = 0xffffffff#32) then none
    else if i.srem p ≠ 0#32 then some (.send p i)
    else some (.recv p)
  | _ => none

/-- A step of environment `e`: its `fork`, which may fail, its `cprintf`, or its `ipc_send`. -/
inductive PrimeAct where
  | fork (e : Nat) (ok : Bool)
  | print (e : Nat)
  | send (e : Nat)
  deriving DecidableEq

def Pipeline.act (s : Pipeline) : PrimeAct → Option Pipeline
  | .fork e ok => do
    let v ← s.envs[e]?
    let point ← v.point.forked
    if ok then return { s with envs := s.envs.set e ⟨point, s.envs.length⟩ ++ [{ point := .top }] }
    else return { s with envs := s.envs.set e { v with point := .panicked } }
  | .print e => do
    let v ← s.envs[e]?
    match v.point with
    | .print p => return { envs := s.envs.set e { v with point := .fork p }, out := s.out ++ [p] }
    | _ => none
  | .send e => do
    let v ← s.envs[e]?
    let (i, point) ← v.point.sent
    let w ← s.envs[v.id]?
    let point' ← w.point.received i
    return { s with envs := (s.envs.set e { v with point := point }).set v.id { w with point := point' } }

/-- The runs, from the start of `umain`. -/
inductive PrimeRun : Pipeline → Prop where
  | start : PrimeRun ⟨[{ point := .mainFork }], []⟩
  | step {s s' : Pipeline} {a : PrimeAct} (h : PrimeRun s) (ha : s.act a = some s') : PrimeRun s'

/-! ## The row -/

/-- An environment that has a right neighbour. -/
def PrimePoint.joined : PrimePoint → Bool
  | .mainSend _ | .recv _ | .send _ _ => true
  | _ => false

/-- An environment that has printed its prime. -/
def PrimePoint.printed : PrimePoint → Bool
  | .fork _ | .recv _ | .send _ _ | .panicked => true
  | _ => false

/-- The environment of the prime number `k` has received the numbers below `B` that the primes before it do not divide. -/
def PrimePoint.Received (k B : Nat) : PrimePoint → Prop
  | .top => ∀ x, Unsieved k x → B ≤ x
  | .print p | .fork p => p.toNat = Nat.nth Nat.Prime k ∧ p.toNat < 2 ^ 31 ∧ p.toNat < B ∧ ∀ x, Unsieved k x → x < B → x = p.toNat
  | .recv p => p.toNat = Nat.nth Nat.Prime k ∧ p.toNat < 2 ^ 31
  | .send p i => p.toNat = Nat.nth Nat.Prime k ∧ p.toNat < 2 ^ 31 ∧ i.toNat < 2 ^ 31 ∧ Unsieved (k + 1) i.toNat ∧ i.toNat < B ∧
      ∀ x, Unsieved (k + 1) x → x < B → x ≤ i.toNat
  | .panicked => True
  | .mainFork | .mainSend _ => False

/-- The numbers below it have been passed on. -/
def PrimePoint.passed (B : Nat) : PrimePoint → Nat
  | .send _ i => i.toNat
  | _ => B

/-- The environments `vs` from the one of prime number `k` on, of which the first has received what is below `B`. -/
def InRow : Nat → Nat → List PrimeEnv → Prop
  | _, _, [] => True
  | k, B, v :: vs => v.point.Received k B ∧ (if v.point.joined then v.id = k + 2 ∧ vs ≠ [] else vs = []) ∧
      InRow (k + 1) (v.point.passed B) vs

variable {k B B' : Nat} {v w : PrimeEnv} {vs ws : List PrimeEnv} {i p : Word} {s s' : Pipeline}

/-- Numbers that a prime before divides make no difference. -/
theorem InRow.raise (h : InRow k B vs) (hle : B ≤ B') (hnone : ∀ x, Unsieved k x → x < B' → x < B) : InRow k B' vs := by
  induction vs generalizing k B B' with
  | nil => trivial
  | cons v vs ih =>
    obtain ⟨hv, hid, hvs⟩ := h
    have hnext : ∀ x, Unsieved (k + 1) x → x < B' → x < B := fun x hx hlt => hnone x hx.pred hlt
    unfold InRow
    cases hp : v.point with
    | top =>
      rw [hp] at hv hid hvs
      refine ⟨fun x hx => ?_, hid, ih hvs hle hnext⟩
      by_contra hlt
      have := hnone x hx (Nat.not_le.1 hlt)
      have := hv x hx
      omega
    | print p | fork p =>
      rw [hp] at hv hid hvs
      obtain ⟨hk, hlt, hB, hall⟩ := hv
      exact ⟨⟨hk, hlt, by omega, fun x hx hlt => hall x hx (hnone x hx hlt)⟩, hid, ih hvs hle hnext⟩
    | recv p =>
      rw [hp] at hv hid hvs
      exact ⟨hv, hid, ih hvs hle hnext⟩
    | send p i =>
      rw [hp] at hv hid hvs
      obtain ⟨hk, hlt, hi, hu, hB, hall⟩ := hv
      exact ⟨⟨hk, hlt, hi, hu, by omega, fun x hx hlt => hall x hx (hnext x hx hlt)⟩, hid, hvs⟩
    | panicked =>
      rw [hp] at hid hvs
      exact ⟨trivial, hid, ih hvs hle hnext⟩
    | mainFork | mainSend =>
      rw [hp] at hv
      exact hv.elim

theorem joined_printed (h : v.point.Received k B) (hj : v.point.joined = true) : v.point.printed = true := by
  cases hp : v.point with
  | recv | send => rfl
  | mainSend => rw [hp] at h; exact h.elim
  | mainFork | top | print | fork | panicked => rw [hp] at hj; cases hj

/-- One environment of a row, and what may come in its place. -/
theorem InRow.focus : ∀ {pre : List PrimeEnv} {k B : Nat}, InRow k B (pre ++ v :: vs) →
    ∃ B', InRow (k + pre.length) B' (v :: vs) ∧ (∀ u ∈ pre, u.point.printed = true) ∧
      ∀ v' vs', InRow (k + pre.length) B' (v' :: vs') → InRow k B (pre ++ v' :: vs')
  | [], k, B, h => ⟨B, h, by simp, fun _ _ h' => h'⟩
  | u :: pre, k, B, ⟨hu, hid, h⟩ => by
    obtain ⟨B', hv, hpre, hput⟩ := InRow.focus h
    have hk : k + 1 + pre.length = k + (u :: pre).length := by simp; omega
    have hj : u.point.joined = true := by
      by_contra hc
      rw [if_neg hc] at hid
      simp at hid
    rw [if_pos hj] at hid
    rw [hk] at hv hput
    refine ⟨B', hv, fun x hx => ?_, fun v' vs' h' => ⟨hu, ?_, hput v' vs' h'⟩⟩
    · rcases List.mem_cons.1 hx with rfl | hx
      · exact joined_printed hu hj
      · exact hpre x hx
    · rw [if_pos hj]
      exact ⟨hid.1, by simp⟩

theorem srem_eq_zero (hi : i.toNat < 2 ^ 31) (hp : p.toNat < 2 ^ 31) : i.srem p = 0#32 ↔ p.toNat ∣ i.toNat := by
  have hmi : i.msb = false := BitVec.msb_eq_false_iff_two_mul_lt.2 (by omega)
  have hmp : p.msb = false := BitVec.msb_eq_false_iff_two_mul_lt.2 (by omega)
  have hrem : i.srem p = i % p := by rw [BitVec.srem_eq, hmi, hmp]
  rw [hrem, Nat.dvd_iff_mod_eq_zero, ← BitVec.toNat_umod]
  exact ⟨fun h => congrArg BitVec.toNat h, fun h => BitVec.eq_of_toNat_eq h⟩

/-- The next number for an environment arrives. -/
theorem InRow.receive {point : PrimePoint} (h : InRow k i.toNat (w :: ws)) (hu : Unsieved k i.toNat) (hi : i.toNat < 2 ^ 31)
    (hB : i.toNat < B) (hlast : ∀ x, Unsieved k x → x < B → x ≤ i.toNat) (hr : w.point.received i = some point) :
    InRow k B ({ w with point := point } :: ws) := by
  obtain ⟨hw, hid, hws⟩ := h
  obtain ⟨wp, id⟩ := w
  cases wp with
  | top =>
    cases hr
    exact ⟨⟨nth_prime_least hu hw, hi, hB, fun x hx hlt => Nat.le_antisymm (hlast x hx hlt) (hw x hx)⟩, hid, by
      rw [show ws = [] from hid]
      trivial⟩
  | recv p =>
    obtain ⟨hp, hplt⟩ := hw
    unfold PrimePoint.received at hr
    dsimp only at hr
    split at hr
    · cases hr
    split at hr
    · rename_i hrem
      cases hr
      have hnext : Unsieved (k + 1) i.toNat := unsieved_succ.2 ⟨hu, by
        rw [← hp]
        exact fun hdvd => hrem ((srem_eq_zero hi hplt).2 hdvd)⟩
      exact ⟨⟨hp, hplt, hi, hnext, hB, fun x hx hlt => hlast x hx.pred hlt⟩, hid, hws⟩
    · rename_i hrem
      cases hr
      refine ⟨⟨hp, hplt⟩, hid, hws.raise hB.le fun x hx hlt => ?_⟩
      -- the number that arrived is the only one, and the prime divides it
      have hle := hlast x hx.pred hlt
      refine lt_of_le_of_ne hle fun hxi => (unsieved_succ.1 hx).2 ?_
      rw [← hp, hxi]
      exact (srem_eq_zero hi hplt).1 (not_not.1 hrem)
  | print | fork | send | panicked | mainFork | mainSend => cases hr

/-! ## The environments in a run -/

/-- `umain` and the row behind it. -/
def MainOk (v : PrimeEnv) (vs : List PrimeEnv) : Prop :=
  match v.point with
  | .mainFork | .panicked => vs = []
  | .mainSend i => v.id = 1 ∧ vs ≠ [] ∧ 2 ≤ i.toNat ∧ i.toNat < 2 ^ 31 ∧ InRow 0 i.toNat vs
  | _ => False

/-- The number of the environments of `vs` that have printed. -/
def printedOf (vs : List PrimeEnv) : Nat := vs.countP fun v => v.point.printed

/-- What has been printed are the first `n` primes. -/
def FirstPrimes (n : Nat) (out : List Word) : Prop := out.map BitVec.toNat = (List.range n).map (Nat.nth Nat.Prime)

structure PrimesInv (v : PrimeEnv) (vs : List PrimeEnv) (out : List Word) : Prop where
  main : MainOk v vs
  out : FirstPrimes (printedOf vs) out

theorem printedOf_append (vs ws : List PrimeEnv) : printedOf (vs ++ ws) = printedOf vs + printedOf ws := by
  simp [printedOf, List.countP_append]

theorem printedOf_cons (v : PrimeEnv) (vs : List PrimeEnv) :
    printedOf (v :: vs) = printedOf vs + if v.point.printed then 1 else 0 := by
  simp [printedOf, List.countP_cons]

theorem printedOf_all (h : ∀ v ∈ vs, v.point.printed = true) : printedOf vs = vs.length := by
  unfold printedOf
  exact List.countP_eq_length.2 h

theorem exists_split {α : Type} {l : List α} {n : Nat} {x : α} (h : l[n]? = some x) :
    ∃ pre post, l = pre ++ x :: post ∧ pre.length = n ∧ ∀ y, l.set n y = pre ++ y :: post := by
  obtain ⟨hlt, rfl⟩ := List.getElem?_eq_some_iff.1 h
  have hset : ∀ y, l.set n y = l.take n ++ y :: l.drop (n + 1) := by
    intro y
    rw [List.set_eq_take_append_cons_drop, if_pos hlt]
  refine ⟨l.take n, l.drop (n + 1), ?_, by simp; omega, hset⟩
  rw [← hset, List.set_getElem_self]

/-- The row when one environment of it has moved on. -/
theorem PrimesInv.inner {out : List Word} {pre : List PrimeEnv} {u : PrimeEnv} (h : PrimesInv v (pre ++ u :: vs) out) :
    ∃ B, InRow pre.length B (u :: vs) ∧ printedOf pre = pre.length ∧ ∀ u' vs' out', InRow pre.length B (u' :: vs') →
      FirstPrimes (printedOf (pre ++ u' :: vs')) out' → PrimesInv v (pre ++ u' :: vs') out' := by
  obtain ⟨hmain, hout⟩ := h
  unfold MainOk at hmain
  cases hv : v.point with
  | mainFork | panicked =>
    rw [hv] at hmain
    simp at hmain
  | mainSend i =>
    rw [hv] at hmain
    obtain ⟨hid, -, h2, hlt, hrow⟩ := hmain
    obtain ⟨B, hu, hpre, hput⟩ := hrow.focus
    rw [Nat.zero_add] at hu hput
    refine ⟨B, hu, printedOf_all hpre, fun u' vs' out' h' ho => ⟨?_, ho⟩⟩
    unfold MainOk
    rw [hv]
    exact ⟨hid, by simp, h2, hlt, hput u' vs' h'⟩
  | top | print | fork | recv | send =>
    rw [hv] at hmain
    exact hmain.elim

theorem FirstPrimes.append {n : Nat} {out : List Word} (h : FirstPrimes n out) (hp : p.toNat = Nat.nth Nat.Prime n) :
    FirstPrimes (n + 1) (out ++ [p]) := by
  unfold FirstPrimes at *
  simp [List.range_succ, h, hp]

/-- A prime that has been forked from divides nothing more. -/
theorem InRow.child (hp : p.toNat = Nat.nth Nat.Prime k) (hall : ∀ x, Unsieved k x → x < B → x = p.toNat) :
    InRow (k + 1) B [{ point := .top }] := by
  refine ⟨fun x hx => ?_, rfl, trivial⟩
  by_contra hlt
  obtain ⟨hx, hdvd⟩ := unsieved_succ.1 hx
  exact hdvd (by rw [← hp, hall x hx (Nat.not_le.1 hlt)])

theorem PrimesInv.fork {out : List Word} {e : Nat} {ok : Bool} (h : PrimesInv v vs out)
    (ha : Pipeline.act ⟨v :: vs, out⟩ (.fork e ok) = some s') : ∃ v' vs', s'.envs = v' :: vs' ∧ PrimesInv v' vs' s'.out := by
  simp only [Pipeline.act, Option.bind_eq_bind, Option.bind_eq_some_iff] at ha
  obtain ⟨u, hu, point, hf, ha⟩ := ha
  cases e with
  | zero =>
    obtain rfl : v = u := by simpa using hu
    obtain ⟨hmain, hout⟩ := h
    unfold MainOk at hmain
    cases hv : v.point with
    | mainFork =>
      rw [hv] at hmain hf
      cases hf
      subst hmain
      split at ha <;> cases ha
      · refine ⟨_, _, rfl, ?_, hout⟩
        refine ⟨rfl, by simp, by decide, by decide, fun x hx => ?_, rfl, trivial⟩
        exact (unsieved_zero.1 hx)
      · exact ⟨_, _, rfl, rfl, hout⟩
    | fork => rw [hv] at hmain; exact hmain.elim
    | panicked | mainSend | top | print | recv | send => rw [hv] at hf; cases hf
  | succ n =>
    have hu' : vs[n]? = some u := by simpa using hu
    obtain ⟨pre, post, rfl, rfl, hset⟩ := exists_split hu'
    obtain ⟨B, ⟨hrec, hid, hpost⟩, hpre, hput⟩ := h.inner
    cases hp : u.point with
    | fork p =>
      rw [hp] at hrec hid hf
      cases hf
      obtain rfl : post = [] := hid
      obtain ⟨hk, hlt, hB, hall⟩ := hrec
      have hout := h.out
      rw [printedOf_append, printedOf_cons, hp] at hout
      split at ha <;> cases ha
      · refine ⟨v, pre ++ [⟨.recv p, (v :: (pre ++ [u])).length⟩, { point := .top }], by simp, ?_⟩
        refine hput _ _ _ ⟨⟨hk, hlt⟩, ⟨by simp, by simp⟩, InRow.child hk hall⟩ ?_
        rw [printedOf_append, printedOf_cons]
        exact hout
      · refine ⟨v, pre ++ [{ u with point := .panicked }], by simp, ?_⟩
        refine hput _ _ _ ⟨trivial, rfl, trivial⟩ ?_
        rw [printedOf_append, printedOf_cons]
        exact hout
    | mainFork => rw [hp] at hrec; exact hrec.elim
    | panicked | mainSend | top | print | recv | send => rw [hp] at hf; cases hf

theorem PrimesInv.print {out : List Word} {e : Nat} (h : PrimesInv v vs out)
    (ha : Pipeline.act ⟨v :: vs, out⟩ (.print e) = some s') :
    ∃ v' vs', s'.envs = v' :: vs' ∧ PrimesInv v' vs' s'.out := by
  simp only [Pipeline.act, Option.bind_eq_bind, Option.bind_eq_some_iff] at ha
  obtain ⟨u, hu, ha⟩ := ha
  cases hp : u.point with
  | print p =>
    rw [hp] at ha
    cases ha
    cases e with
    | zero =>
      obtain rfl : v = u := by simpa using hu
      have hmain := h.main
      unfold MainOk at hmain
      rw [hp] at hmain
      exact hmain.elim
    | succ n =>
      have hu' : vs[n]? = some u := by simpa using hu
      obtain ⟨pre, post, rfl, rfl, hset⟩ := exists_split hu'
      obtain ⟨B, ⟨hrec, hid, -⟩, hpre, hput⟩ := h.inner
      rw [hp] at hrec hid
      obtain rfl : post = [] := hid
      have hout := h.out
      rw [printedOf_append, printedOf_cons, hp, hpre] at hout
      refine ⟨v, pre ++ [{ u with point := .fork p }], by simp, ?_⟩
      refine hput _ _ _ ⟨hrec, rfl, trivial⟩ ?_
      -- those before it have printed, so that it prints the next prime
      rw [printedOf_append, printedOf_cons, hpre]
      exact FirstPrimes.append hout hrec.1
  | mainFork | mainSend | top | fork | recv | send | panicked => rw [hp] at ha; cases ha

theorem received_printed {point : PrimePoint} (h : w.point.received i = some point) : point.printed = w.point.printed := by
  unfold PrimePoint.received at h
  split at h
  · rename_i hw
    cases h
    rw [hw]
    rfl
  · rename_i hw
    rw [hw]
    split at h
    · cases h
    · split at h <;> cases h <;> rfl
  · cases h

theorem PrimesInv.send {out : List Word} {e : Nat} (h : PrimesInv v vs out)
    (ha : Pipeline.act ⟨v :: vs, out⟩ (.send e) = some s') :
    ∃ v' vs', s'.envs = v' :: vs' ∧ PrimesInv v' vs' s'.out := by
  simp only [Pipeline.act, Option.bind_eq_bind, Option.bind_eq_some_iff] at ha
  obtain ⟨u, hu, ⟨i, point⟩, hsent, w, hw, point', hrec, ha⟩ := ha
  cases ha
  cases e with
  | zero =>
    -- the main process hands the next number to the first stage
    obtain rfl : v = u := by simpa using hu
    obtain ⟨hmain, hout⟩ := h
    unfold MainOk at hmain
    cases hv : v.point with
    | mainSend j =>
      rw [hv] at hmain hsent
      obtain ⟨hid, hne, h2, hlt, hrow⟩ := hmain
      obtain ⟨x, ws, rfl⟩ := List.exists_cons_of_ne_nil hne
      unfold PrimePoint.sent at hsent
      dsimp only at hsent
      split at hsent
      · cases hsent
      rename_i hmax
      cases hsent
      obtain rfl : x = w := by simpa [hid] using hw
      -- at the largest `int` there is no send
      have hi : i.toNat ≠ 2147483647 := fun hc => hmax (BitVec.eq_of_toNat_eq hc)
      have hnext : (i + 1#32).toNat = i.toNat + 1 := by
        rw [BitVec.toNat_add]
        simp
        omega
      have hrow' := hrow.receive (B := (i + 1#32).toNat) (unsieved_zero.2 h2) hlt (by omega) (fun x _ hx => by omega) hrec
      refine ⟨{ v with point := .mainSend (i + 1#32) }, { x with point := point' } :: ws, by simp [hid], ?_, ?_⟩
      · exact ⟨hid, by simp, by omega, by omega, hrow'⟩
      · rw [printedOf_cons] at hout ⊢
        rw [received_printed hrec]
        exact hout
    | send => rw [hv] at hmain; exact hmain.elim
    | mainFork | panicked | top | print | recv | fork => rw [hv] at hsent; cases hsent
  | succ n =>
    have hu' : vs[n]? = some u := by simpa using hu
    -- a stage hands a number on to the stage behind it, and the row is cut between the two
    obtain ⟨pre, post, rfl, rfl, hset⟩ := exists_split hu'
    obtain ⟨B, ⟨hrecv, hid, hpost⟩, hpre, hput⟩ := h.inner
    cases hp : u.point with
    | send p j =>
      rw [hp] at hrecv hid hsent hpost
      cases hsent
      obtain ⟨hid, hne⟩ := hid
      obtain ⟨x, ws, rfl⟩ := List.exists_cons_of_ne_nil hne
      obtain rfl : x = w := by
        rw [hid] at hw
        simpa using hw
      obtain ⟨hk, hplt, hj, hun, hB, hlast⟩ := hrecv
      have hrow := InRow.receive hpost hun hj hB hlast hrec
      refine ⟨v, pre ++ { u with point := .recv p } :: { x with point := point' } :: ws, ?_,
        hput _ _ _ ⟨⟨hk, hplt⟩, ⟨hid, by simp⟩, hrow⟩ ?_⟩
      · rw [hid]
        simp
      · have hout := h.out
        rw [printedOf_append, printedOf_cons, printedOf_cons, hp] at hout
        rw [printedOf_append, printedOf_cons, printedOf_cons, received_printed hrec]
        exact hout
    | mainSend => rw [hp] at hrecv; exact hrecv.elim
    | mainFork | panicked | top | print | recv | fork => rw [hp] at hsent; cases hsent

theorem PrimeRun.inv (h : PrimeRun s) : ∃ v vs, s.envs = v :: vs ∧ PrimesInv v vs s.out := by
  induction h with
  | start => exact ⟨_, [], rfl, rfl, rfl⟩
  | @step s s' a _ ha ih =>
    obtain ⟨v, vs, henvs, hi⟩ := ih
    obtain ⟨envs, out⟩ := s
    subst henvs
    cases a with
    | fork => exact hi.fork ha
    | print => exact hi.print ha
    | send => exact hi.send ha

/-- However the environments take turns, the primes are printed in order, and no other number. -/
theorem primes_in_order (h : PrimeRun s) : s.out.map BitVec.toNat = (List.range s.out.length).map (Nat.nth Nat.Prime) := by
  obtain ⟨v, vs, -, hi⟩ := h.inv
  have hout := hi.out
  have hlen := congrArg List.length hout
  simp at hlen
  rw [hlen]
  exact hout

/-- The first child has printed. -/
theorem primes_in_order_two : [2] = (List.range 1).map (Nat.nth Nat.Prime) :=
  primes_in_order (s := ⟨[⟨.mainSend 3#32, 1⟩, ⟨.fork 2#32, 0⟩], [2#32]⟩)
    ((((PrimeRun.start.step (a := .fork 0 true) rfl).step (a := .send 0) rfl).step (a := .print 1) rfl))

/-! ## No environment waits for good -/

end Jos
