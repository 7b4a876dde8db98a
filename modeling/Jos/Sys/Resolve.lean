/-
Which environment an `envid` names for the calling one, and what the scheduler does: the part of
the system calls that comes before and after the work on address spaces.
-/
import Jos.Vm.Take

namespace Jos

open Lib Kern

variable {b s s' : State} {M l : List Nat} {le : List Slot} {Q : Nat → Nat → Prop} {cur e : Slot} {envid : Word}

/-- The environment that `envid` names for the environment in slot `cur`. -/
def State.resolve (s : State) (cur : Slot) (envid : Word) (checkperm : Bool) : Option Slot :=
  if envid = 0#32 then some cur
  else if (s.envs (envx envid)).envStatus = .free ∨ (s.envs (envx envid)).envId ≠ envid then none
  else if checkperm = true ∧ envx envid ≠ cur ∧ (s.envs (envx envid)).envParentId ≠ (s.envs cur).envId then none
  else some (envx envid)

theorem run_envid2env (hcur : s.curenv = some cur) (checkperm : Bool) :
    (envid2env envid checkperm).run s =
      .ok (match s.resolve cur envid checkperm with | some e => (0, some e) | none => (-eBadEnv, none)) s := by
  unfold envid2env State.resolve
  rw [run_bind_ok (EStateM.run_get s)]
  by_cases h0 : envid = 0#32
  · rw [if_pos h0, if_pos h0, hcur]; rfl
  rw [if_neg h0, if_neg h0, run_bind_ok (run_env _)]
  by_cases h1 : (s.envs (envx envid)).envStatus = .free ∨ (s.envs (envx envid)).envId ≠ envid
  · rw [if_pos h1, if_pos h1]; rfl
  rw [if_neg h1, if_neg h1, hcur]
  by_cases h2 : checkperm = true ∧ some (envx envid) ≠ some cur
  · have hne : envx envid ≠ cur := fun h => h2.2 (congrArg some h)
    rw [if_pos h2, run_bind_ok (run_deref_some cur), run_bind_ok (run_env cur)]
    by_cases h3 : (s.envs (envx envid)).envParentId ≠ (s.envs cur).envId
    · rw [if_pos h3, if_pos ⟨h2.1, hne, h3⟩]; rfl
    · rw [if_neg h3, if_neg (fun h => h3 h.2.2)]; rfl
  · rw [if_neg h2, if_neg (fun h => h2 ⟨h.1, fun hc => h.2.1 (Option.some.inj hc)⟩)]; rfl

theorem run_getenvid (hcur : s.curenv = some cur) : sysGetenvid.run s = .ok (s.envs cur).envId s := by
  unfold sysGetenvid
  rw [run_bind_ok (EStateM.run_get s), hcur]
  rfl

/-- What a resolved environment is: the caller, or one in use with that id, and with the permission
check a child of the caller. -/
theorem resolve_some {checkperm : Bool} (h : s.resolve cur envid checkperm = some e) :
    e = cur ∨ ((s.envs e).envStatus ≠ .free ∧
      (checkperm = true → (s.envs e).envParentId = (s.envs cur).envId)) := by
  unfold State.resolve at h
  split at h
  · exact Or.inl (Option.some.inj h).symm
  split at h
  · cases h
  split at h
  · cases h
  rename_i h1 h2
  cases h
  by_cases hc : envx envid = cur
  · exact Or.inl hc
  · refine Or.inr ⟨fun hf => h1 (Or.inl hf), fun hp => ?_⟩
    by_contra hpar
    exact h2 ⟨hp, hc, hpar⟩

theorem resolve_live {checkperm : Bool} (h : s.resolve cur envid checkperm = some e)
    (hcur : (s.envs cur).envStatus ≠ .free) : (s.envs e).envStatus ≠ .free := by
  rcases resolve_some h with rfl | ⟨hl, -⟩
  · exact hcur
  · exact hl

end Jos
