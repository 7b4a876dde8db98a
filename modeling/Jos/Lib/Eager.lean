/-
Processes with private memories: a process writes its own pages, and a new process gets copies of the pages of the one that
creates it, page by page. `Eager.Runs` is the reference that a shared implementation is compared with; `Copied` says which
pages of a child have been copied and that they are those of the parent where the parent has not written since.
-/
import Mathlib.Logic.Function.Basic
import Mathlib.Tactic

namespace Jos.Lib

variable {P V X : Type}

/-- The memories, and the pages that a process has written since it last created another, or copied the page. -/
structure Eager (P V X : Type) where
  mem : P → V → Option X
  written : P → V → Prop

/-- What a process does to the memories or sees of them. -/
inductive Eager.Act (P V X : Type) where
  | spawn (parent child : P)
  | copy (parent child : P) (v : V)
  | write (p : P) (v : V) (f : X → X)
  | read (p : P) (v : V) (x : X)
  | internal

namespace Eager

variable [DecidableEq P] [DecidableEq V]

/-- The memories after an action. -/
def apply (m : Eager P V X) : Act P V X → Eager P V X
  | .spawn parent child =>
    { mem := fun p v => if p = child then none else m.mem p v,
      written := fun p v => p ≠ parent ∧ m.written p v }
  | .copy parent child v =>
    { mem := fun p v' => if p = child ∧ v' = v then m.mem parent v else m.mem p v',
      written := fun p v' => ¬ (p = parent ∧ v' = v) ∧ m.written p v' }
  | .write p v f =>
    { mem := fun p' v' => if p' = p ∧ v' = v then (m.mem p v).map f else m.mem p' v',
      written := fun p' v' => (p' = p ∧ v' = v) ∨ m.written p' v' }
  | .read .. | .internal => m

/-- A read returns the page of the process itself. -/
def Reads (m : Eager P V X) : Act P V X → Prop
  | .read p v x => m.mem p v = some x
  | _ => True

/-- The memories after the actions `as`, in which every read is right. -/
inductive Runs (m : Eager P V X) : List (Act P V X) → Eager P V X → Prop where
  | refl : Runs m [] m
  | step {as : List (Act P V X)} {m' : Eager P V X} {a : Act P V X} (h : Runs m as m') (hr : m'.Reads a) :
      Runs m (as ++ [a]) (m'.apply a)

/-! ## Copies -/

/-- The pages `done` of `child` are copies of those of `parent`: the same pages are there, and they agree where the parent has
not written. -/
def Copied (m : Eager P V X) (parent child : P) (done : V → Prop) : Prop :=
  ∀ v, done v → (m.mem child v).isSome = (m.mem parent v).isSome ∧
    (¬ m.written parent v → m.mem child v = m.mem parent v)

variable {m : Eager P V X} {parent child p q : P} {done done' : V → Prop} {v : V} {f : X → X}

omit [DecidableEq P] [DecidableEq V] in
theorem Copied.mono (h : m.Copied parent child done) (hd : ∀ v, done' v → done v) : m.Copied parent child done' :=
  fun v hv => h v (hd v hv)

/-- A process that is neither the parent nor the child creates another one. -/
theorem Copied.spawn (h : m.Copied parent child done) (hp : p ≠ parent) (hq : q ≠ parent) (hc : q ≠ child) :
    (m.apply (.spawn p q)).Copied parent child done := by
  intro v hv
  obtain ⟨h1, h2⟩ := h v hv
  simp only [apply, if_neg hq.symm, if_neg hc.symm]
  exact ⟨h1, fun hw => h2 fun hm => hw ⟨hp.symm, hm⟩⟩

/-- The parent copies a page. -/
theorem Copied.copy (h : m.Copied parent child done) (hne : parent ≠ child) (v : V) :
    (m.apply (.copy parent child v)).Copied parent child fun x => done x ∨ x = v := by
  intro x hx
  simp only [apply, if_neg (fun hc : parent = child ∧ x = v => hne hc.1)]
  by_cases hxv : x = v
  · simp [hxv]
  · obtain ⟨h1, h2⟩ := h x (hx.resolve_right hxv)
    rw [if_neg fun hc => hxv hc.2]
    exact ⟨h1, fun hw => h2 fun hm => hw ⟨fun hc => hxv hc.2, hm⟩⟩

/-- A page is copied between other processes. -/
theorem Copied.copy_other (h : m.Copied parent child done) (hne : p ≠ parent) (hp : q ≠ parent) (hc : q ≠ child) (v : V) :
    (m.apply (.copy p q v)).Copied parent child done := by
  intro x hx
  simp only [apply, if_neg (fun hc' : parent = q ∧ x = v => hp hc'.1.symm), if_neg (fun hc' : child = q ∧ x = v => hc hc'.1.symm)]
  obtain ⟨h1, h2⟩ := h x hx
  exact ⟨h1, fun hw => h2 fun hm => hw ⟨fun hc => hne hc.1.symm, hm⟩⟩

/-- A process other than the child writes. -/
theorem Copied.write (h : m.Copied parent child done) (hp : p ≠ child) (v : V) (f : X → X) :
    (m.apply (.write p v f)).Copied parent child done := by
  intro x hx
  obtain ⟨h1, h2⟩ := h x hx
  simp only [apply, if_neg (fun hc : child = p ∧ x = v => hp hc.1.symm)]
  by_cases hw : parent = p ∧ x = v
  · obtain ⟨rfl, rfl⟩ := hw
    refine ⟨?_, fun hn => absurd (Or.inl ⟨rfl, rfl⟩) hn⟩
    simpa using h1
  · rw [if_neg hw]
    exact ⟨h1, fun hn => h2 fun hm => hn (Or.inr hm)⟩

omit [DecidableEq P] [DecidableEq V] in
/-- Nothing is copied yet. -/
theorem copied_none (m : Eager P V X) (parent child : P) : m.Copied parent child fun _ => False := fun _ => False.elim

end Eager

end Jos.Lib
