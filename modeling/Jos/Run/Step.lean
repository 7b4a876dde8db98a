/-
One operation of a run, from a state that satisfies the invariant: it returns, its event says what
became of the mappings, and the invariant is kept as long as the counters have room.
-/
import Jos.Run.Ops

namespace Jos

open Lib Kern

variable {b s s' : State} {M l : List Nat} {le : List Slot} {Q : Nat → Nat → Prop} {e : Slot} {d pp : Nat} {va perm : Word}

/-- No mapping points outside memory. -/
def Genuine (s : State) : Prop := ∀ e, ¬ Forged s e

/-- The environments that an event creates or frees. -/
def Event.Env (e : Slot) : Event → Prop
  | .created e' => e = e'
  | .freed e' => e = e'
  | _ => False

/-- The counters have room for the reference that an event adds. -/
def Event.Room (s : State) : Event → Prop
  | .inserted e pp va _ => Jos.Room s pp (.leaf e (pdx va) (ptx va))
  | _ => True

/-- What an operation leads to. -/
structure Stepped (b : State) (M : List Nat) (Q : Nat → Nat → Prop) (s s' : State) (ev : Event) : Prop where
  pte : s'.pte = ev.apply s.pte
  dir : ∀ e, ¬ ev.Env e → s'.dir e = s.dir e
  npages : s'.npages = s.npages
  new : ∀ e pp va perm, ev = .inserted e pp va perm → pp ∈ M ∧ LowPerm perm ∧ ¬ s.Struct pp
  inv : ∃ l' le', Vm b M s' l' ∧ EnvTable s' le' ∧ (ev.Room s → Counts Q M l' none s')

/-- Reading the directory of an environment in use. -/
theorem run_pgdir {α : Type} (hd : s.dir e = some d) (k : Nat → Kern α) :
    (do let v ← env e; let pgdir ← derefPage v.envPgdir; k pgdir).run s = (k d).run s := by
  rw [run_bind_ok (run_env e), (dir_eq_some.1 hd).2, run_bind_ok (run_derefPage_some d)]

theorem pte_of_no_dir (h : s.dir e = none) (i j : Idx) : s.pte e i j = none := pte_of_no_tab (node_of_no_root h i) j

theorem EnvTable.rest (h : EnvTable s le) (hr : Rest s s') : EnvTable s' le :=
  ⟨by rw [hr.envs, hr.envFreeList]; exact h.envChain, h.envNodup, by rw [hr.envs]; exact h.mem_iff,
    by rw [hr.envs]; exact h.pgdir⟩

/-- A page that `page_lookup` returns is a page in use that is no table. -/
theorem LooksUp.managed (h : Vm b M s l) (hp : LooksUp s pp) :
    pp ∈ M ∧ pp ∉ l ∧ ¬ s.Struct pp ∧ ∃ c, s.cell c = some pp := by
  obtain ⟨src, d, srcva, q, s', hd, hva, hrun⟩ := hp
  cases hw : s.pte src (pdx srcva) (ptx srcva) with
  | none =>
    obtain ⟨q', hq⟩ := lookup_absent h.toTables hd hva hw
    rw [hq] at hrun
    cases hrun
  | some w =>
    obtain ⟨n, hn, -, -⟩ := pte_eq_some.1 hw
    rw [lookup_present h.toTables hd hn hw] at hrun
    split at hrun
    · rename_i hlt
      cases hrun
      have hcell := cell_leaf_eq_some.2 ⟨w, hw, rfl⟩
      rcases h.leafM _ _ _ _ hw with ⟨hM, hns⟩ | hge
      · exact ⟨hM, fun hl => h.freeCell _ hl _ hcell, hns, _, hcell⟩
      · omega
    · cases hrun

/-! ## The operations one by one -/

theorem step_envAlloc (hQ : CountRel Q) (h : Inv Q b M s l le) (parentId : Word) :
    ∃ ev s', (Op.envAlloc parentId).exec.run s = .ok ev s' ∧ Stepped b M Q s s' ev := by
  unfold Op.exec
  rcases alloc_spec hQ h parentId with ⟨hrun, -⟩ | ⟨hrun, -⟩ | ⟨e, le', s', l', -, hrun, hi, hsp⟩
  · exact ⟨.failed, s, by rw [run_bind_ok hrun]; rfl, rfl, fun _ _ => rfl, rfl, by simp, l, le, h.toVm, h.toEnvTable,
      fun _ => h.counts⟩
  · exact ⟨.failed, s, by rw [run_bind_ok hrun]; rfl, rfl, fun _ _ => rfl, rfl, by simp, l, le, h.toVm, h.toEnvTable,
      fun _ => h.counts⟩
  · refine ⟨.created e, s', by rw [run_bind_ok hrun]; rfl, ?_, fun e' he' => ?_, hsp.same.npages, by simp, l', le', hi.toVm,
      hi.toEnvTable, fun _ => hi.counts⟩
    · rw [hsp.pte]
      funext e' i j
      show _ = if e' = e then none else s.pte e' i j
      split
      · rename_i he
        rw [he]
        exact pte_of_no_dir (dir_free hsp.wasFree) i j
      · rfl
    · obtain ⟨p, -, hp⟩ := hsp.envs
      have hne : e' ≠ e := he'
      unfold State.dir
      rw [hp, Function.update_of_ne hne]

theorem step_envFree (hQ : CountRel Q) (h : Inv Q b M s l le) (hg : Genuine s) (he : (s.envs e).envStatus ≠ .free) :
    ∃ ev s', (Op.envFree e).exec.run s = .ok ev s' ∧ Stepped b M Q s s' ev := by
  obtain ⟨d, hd, -⟩ := h.toEnvTable.dir he
  unfold Op.exec
  rcases free_spec hQ h hd with ⟨s', l', hrun, hi, hf⟩ | ⟨s', -, hf, -⟩
  · refine ⟨.freed e, s', by rw [run_bind_ok hrun]; rfl, ?_, fun e' he' => ?_, hf.same.npages, by simp, l', _, hi.toVm,
      hi.toEnvTable, fun _ => hi.counts⟩
    · funext e' i j
      show _ = if e' = e then none else s.pte e' i j
      split
      · rename_i heq
        rw [heq, hf.pteOwn]
      · rename_i hne
        exact hf.pteOther e' i j hne
    · have hne : e' ≠ e := he'
      unfold State.dir
      rw [hf.envs e' hne]
  · exact absurd hf (hg e)

theorem step_remove (hQ : CountRel Q) (h : Inv Q b M s l le) (hg : Genuine s) (he : (s.envs e).envStatus ≠ .free)
    (hva : va < utop) : ∃ ev s', (Op.remove e va).exec.run s = .ok ev s' ∧ Stepped b M Q s s' ev := by
  obtain ⟨d, hd, -⟩ := h.toEnvTable.dir he
  simp only [Op.exec, run_pgdir hd]
  rcases remove_spec hQ h.toVm h.counts (by simp) hd hva with ⟨s', l', hrun, hv, hc, hr⟩ | ⟨w, -, hw, hge⟩
  · refine ⟨.removed e va, s', by rw [run_bind_ok hrun]; rfl, ?_, fun e' _ => by rw [hr.rest.dir], hr.rest.npages,
      by simp, l', le, hv, h.toEnvTable.rest hr.rest, fun _ => hc⟩
    funext e' i j
    exact hr.pte e' i j
  · exact absurd ⟨_, _, w, hw, hge⟩ (hg e)

theorem step_insert (hQ : CountRel Q) (h : Inv Q b M s l le) (hg : Genuine s) (he : (s.envs e).envStatus ≠ .free)
    (hva : va < utop) (hperm : LowPerm perm) (hp : LooksUp s pp) :
    ∃ ev s', (Op.insert e pp va perm).exec.run s = .ok ev s' ∧
      Stepped b M Q s s' ev := by
  obtain ⟨d, hd, -⟩ := h.toEnvTable.dir he
  obtain ⟨hM, hl, hns, -⟩ := hp.managed h.toVm
  simp only [Op.exec, run_pgdir hd]
  have hin := insert_spec hQ h.toVm h.counts hd hva hM hl hns (Or.inl hperm) (Or.inl rfl)
  generalize hrun : (pageInsert d pp va perm).run s = r at hin
  cases hin with
  | noMem =>
    exact ⟨.failed, s, by rw [run_bind_ok hrun]; rfl, rfl, fun _ _ => rfl, rfl, by simp, l, le, h.toVm, h.toEnvTable,
      fun _ => h.counts⟩
  | panic s' w hw hge => exact absurd ⟨_, _, w, hw, hge⟩ (hg e)
  | done s' l' hv hc hr =>
    refine ⟨.inserted e pp va perm, s', by rw [run_bind_ok hrun]; rfl, ?_, fun e' _ => by rw [hr.rest.dir], hr.rest.npages,
      by rintro _ _ _ _ ⟨⟩; exact ⟨hM, hperm, hns⟩, l', le, hv, h.toEnvTable.rest hr.rest, hc⟩
    funext e' i j
    exact hr.pte e' i j

theorem step_allocInsert (hQ : CountRel Q) (h : Inv Q b M s l le) (hg : Genuine s) (he : (s.envs e).envStatus ≠ .free)
    (hva : va < utop) (hperm : LowPerm perm) (flags : Word) :
    ∃ ev s', (Op.allocInsert flags e va perm).exec.run s = .ok ev s' ∧ Stepped b M Q s s' ev := by
  obtain ⟨d, hd, -⟩ := h.toEnvTable.dir he
  simp only [Op.exec]
  cases l with
  | nil =>
    rw [run_bind_ok (pageAlloc_none h.chain flags)]
    exact ⟨.failed, s, rfl, rfl, fun _ _ => rfl, rfl, by simp, [], le, h.toVm, h.toEnvTable, fun _ => h.counts⟩
  | cons p l =>
    have hpl : p ∈ p :: l := List.mem_cons_self ..
    have hM := h.freeM p hpl
    have hnl := (List.nodup_cons.1 h.nodup).1
    have ht := take_spec h.toVm h.counts flags
    have hd₁ : (s.take flags p).dir e = some d := by rw [ht.rest.dir]; exact hd
    have hns : ¬ (s.take flags p).Struct p := by
      rw [struct_congr ht.tab ht.rest.dir]; exact h.free_not_struct hpl
    rw [run_bind_ok (pageAlloc_take h.chain.1 (h.managed p hM) flags)]
    simp only [run_pgdir hd₁]
    have hin := insert_spec hQ ht.vm ht.counts hd₁ hva hM hnl hns (Or.inl hperm) ht.linkable
    generalize hrun : (pageInsert d p va perm).run (s.take flags p) = r at hin
    cases hin with
    | noMem =>
      obtain ⟨hfree, hv, hc⟩ := ht.putBack hM hnl
      have hr : Rest s ((s.take flags p).push p) := ht.rest.trans ⟨rfl, rfl, rfl, rfl, rfl, rfl, fun _ => rfl, fun _ => rfl⟩
      refine ⟨.failed, (s.take flags p).push p, ?_, ?_, fun e' _ => by rw [hr.dir], hr.npages, by simp, _, le, hv,
        h.toEnvTable.rest hr, fun _ => hc⟩
      · rw [run_bind_ok hrun, if_pos (by decide), run_bind_ok hfree]; rfl
      · exact (pte_congr rfl rfl).trans ht.pte
    | panic s' w hw hge =>
      rw [ht.pte] at hw
      rw [ht.rest.npages] at hge
      exact absurd ⟨_, _, w, hw, hge⟩ (hg e)
    | done s' l' hv hc hr =>
      refine ⟨.inserted e p va perm, s', by rw [run_bind_ok hrun]; rfl, ?_,
        fun e' _ => by rw [hr.rest.dir, ht.rest.dir], hr.rest.npages.trans ht.rest.npages,
        by rintro _ _ _ _ ⟨⟩; exact ⟨hM, hperm, h.free_not_struct hpl⟩, l', le, hv,
        (h.toEnvTable.rest ht.rest).rest hr.rest, fun _ => hc (Or.inl ?_)⟩
      · funext e' i j
        rw [hr.pte, ht.pte]; rfl
      · obtain hk | ⟨-, h0, -⟩ := ht.linkable
        · cases hk
        · omega

/-- Every operation of a run returns; its event says what became of the mappings. -/
theorem op_step (hQ : CountRel Q) (h : Inv Q b M s l le) (hg : Genuine s) (op : Op) (hop : op.Ok s) :
    ∃ ev s', op.exec.run s = .ok ev s' ∧ Stepped b M Q s s' ev := by
  cases op with
  | envAlloc parentId => exact step_envAlloc hQ h parentId
  | allocInsert flags e va perm => exact step_allocInsert hQ h hg hop.1 hop.2.1 hop.2.2 flags
  | insert e pp va perm => exact step_insert hQ h hg hop.1 hop.2.1 hop.2.2.1 hop.2.2.2
  | remove e va => exact step_remove hQ h hg hop.1 hop.2
  | envFree e => exact step_envFree hQ h hg hop

end Jos
