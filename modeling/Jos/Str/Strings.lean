/-
`strcmp` and `strchr` of lib/string.c. The loops have a number of turns that they may take.
-/
import Jos.Fmt.Items

namespace Jos

open Lib

/-- The bytes at `p` are the string `s` and a NUL. -/
def StrAt (mem : Bytes) (p : Ptr) (s : List Byte) : Prop := 0#8 ∉ s ∧ ∀ j ≤ s.length, p.byte mem j = s.getD j 0#8

/-- `strcmp`. -/
def strcmp (mem : Bytes) : Nat → Ptr → Ptr → Option Int
  | 0, _, _ => none
  | lim + 1, p, q =>
    if p.byte mem 0 ≠ 0#8 ∧ p.byte mem 0 = q.byte mem 0 then strcmp mem lim p.next q.next
    else some ((p.byte mem 0).toNat - (q.byte mem 0).toNat)

/-- `strchr`; a null pointer is `none`. -/
def strchr (mem : Bytes) (c : Byte) : Nat → Ptr → Option (Option Ptr)
  | 0, _ => none
  | lim + 1, s =>
    if s.byte mem 0 = 0#8 then some none
    else if s.byte mem 0 = c then some (some s)
    else strchr mem c lim s.next

variable {mem : Bytes} {p q : Ptr} {s t : List Byte} {c d : Byte} {lim : Nat}

theorem strAt_lit (mem : Bytes) (h : 0#8 ∉ s) : StrAt mem (.lit s 0) s :=
  ⟨h, fun j _ => by show s.getD (0 + j) 0#8 = _; rw [Nat.zero_add]⟩

theorem StrAt.head_nil (h : StrAt mem p []) : p.byte mem 0 = 0#8 := h.2 0 le_rfl

theorem StrAt.head (h : StrAt mem p (c :: s)) : p.byte mem 0 = c := h.2 0 (Nat.zero_le _)

theorem StrAt.head_ne (h : StrAt mem p (c :: s)) : c ≠ 0#8 := fun hc => h.1 (by rw [hc]; exact List.mem_cons_self ..)

theorem StrAt.next (h : StrAt mem p (c :: s)) : StrAt mem p.next s := by
  refine ⟨fun h0 => h.1 (List.mem_cons_of_mem _ h0), fun j hj => ?_⟩
  rw [byte_next, h.2 (j + 1) (by rw [List.length_cons]; omega)]
  rfl

/-- The result is 0 exactly for equal strings. -/
theorem strcmp_eq_zero (hp : StrAt mem p s) (hq : StrAt mem q t) (hlim : s.length < lim) :
    ∃ d, strcmp mem lim p q = some d ∧ (d = 0 ↔ s = t) := by
  induction s generalizing p q t lim with
  | nil =>
    obtain ⟨lim, rfl⟩ : ∃ k, lim = k + 1 := ⟨lim - 1, by omega⟩
    rw [strcmp, if_neg fun h => h.1 hp.head_nil, hp.head_nil]
    refine ⟨_, rfl, ?_⟩
    cases t with
    | nil => simp [hq.head_nil]
    | cons d t =>
      have hd : d.toNat ≠ 0 := fun h => hq.head_ne (BitVec.eq_of_toNat_eq h)
      rw [hq.head]
      simp [hd]
  | cons c s ih =>
    obtain ⟨lim, rfl⟩ : ∃ k, lim = k + 1 := ⟨lim - 1, by omega⟩
    rw [List.length_cons] at hlim
    rw [strcmp, hp.head]
    have hdiff : ∀ {b : Byte}, c ≠ b → ((c.toNat : Int) - b.toNat) ≠ 0 := fun hne h =>
      hne (BitVec.eq_of_toNat_eq (by omega))
    cases t with
    | nil =>
      rw [hq.head_nil, if_neg fun h => h.1 h.2]
      exact ⟨_, rfl, iff_of_false (hdiff hp.head_ne) (by simp)⟩
    | cons d t =>
      rw [hq.head]
      by_cases hcd : c = d
      · subst hcd
        obtain ⟨x, hrun, hx⟩ := ih hp.next hq.next (Nat.lt_of_succ_lt_succ hlim)
        rw [if_pos ⟨hp.head_ne, rfl⟩]
        exact ⟨x, hrun, by rw [hx, List.cons.injEq, and_iff_right rfl]⟩
      · rw [if_neg fun h => hcd h.2]
        exact ⟨_, rfl, iff_of_false (hdiff hcd) fun h => hcd (List.cons.inj h).1⟩

/-- A pointer is returned exactly for a character of the string. -/
theorem strchr_isSome (c : Byte) (hp : StrAt mem p s) (hlim : s.length < lim) :
    ∃ r, strchr mem c lim p = some r ∧ (r.isSome = true ↔ c ∈ s) := by
  induction s generalizing p lim with
  | nil =>
    obtain ⟨lim, rfl⟩ : ∃ k, lim = k + 1 := ⟨lim - 1, by omega⟩
    rw [strchr, if_pos hp.head_nil]
    exact ⟨none, rfl, by simp⟩
  | cons d s ih =>
    obtain ⟨lim, rfl⟩ : ∃ k, lim = k + 1 := ⟨lim - 1, by omega⟩
    rw [List.length_cons] at hlim
    rw [strchr, hp.head, if_neg hp.head_ne]
    by_cases hdc : d = c
    · rw [if_pos hdc]
      exact ⟨some p, rfl, by simp [hdc]⟩
    · obtain ⟨r, hrun, hr⟩ := ih hp.next (Nat.lt_of_succ_lt_succ hlim)
      rw [if_neg hdc]
      exact ⟨r, hrun, by rw [hr, List.mem_cons, or_iff_right (Ne.symm hdc)]⟩

end Jos
