/-
The formats that print nothing, read off the format and its arguments, and with them the formats for which the three
counts agree.
-/
import Jos.Fmt.Sinks
import Jos.Fmt.Escapes

namespace Jos

open Lib

/-! ## Programs that print -/

variable {α β : Type}

/-- The output only grows. -/
def Grows (m : Prog (List Word) α) : Prop := ∀ ⦃w a w'⦄, m.run w = some (a, w') → w.length ≤ w'.length

/-- Something is printed. -/
def Prints (m : Prog (List Word) α) : Prop := ∀ ⦃w a w'⦄, m.run w = some (a, w') → w.length < w'.length

theorem Grows.bind {m : Prog (List Word) α} {f : α → Prog (List Word) β} (hm : Grows m) (hf : ∀ a, Grows (f a)) :
    Grows (m >>= f) := by
  intro w b w' h
  obtain ⟨a, t, h₁, h₂⟩ := run_bind_some h
  exact (hm h₁).trans (hf a h₂)

theorem Prints.bind_left {m : Prog (List Word) α} {f : α → Prog (List Word) β} (hm : Prints m) (hf : ∀ a, Grows (f a)) :
    Prints (m >>= f) := by
  intro w b w' h
  obtain ⟨a, t, h₁, h₂⟩ := run_bind_some h
  exact (hm h₁).trans_le (hf a h₂)

theorem Prints.bind_right {m : Prog (List Word) α} {f : α → Prog (List Word) β} (hm : Grows m) (hf : ∀ a, Prints (f a)) :
    Prints (m >>= f) := by
  intro w b w' h
  obtain ⟨a, t, h₁, h₂⟩ := run_bind_some h
  exact (hm h₁).trans_lt (hf a h₂)

theorem Prints.ite {c : Prop} [Decidable c] {m n : Prog (List Word) α} (hm : c → Prints m) (hn : ¬ c → Prints n) :
    Prints (if c then m else n) := by
  by_cases hc : c
  · rw [if_pos hc]
    exact hm hc
  · rw [if_neg hc]
    exact hn hc

/-- A program that is related to itself whatever length the output has at least. -/
theorem grows_of_sim {m : Prog (List Word) α} (h : ∀ k, Sim (Same fun w : List Word => k ≤ w.length) m m) : Grows m :=
  fun w _ _ hr => (h w.length).keeps le_rfl hr

variable {mem : Bytes} {ap : Nat → Word} {lim : Nat}

/-- The host of a list of items, with all output kept. -/
def itemHost (mem : Bytes) : Host (List Word) := memHost (fun c w => w ++ [c]) mem

theorem itemHost_sim (mem : Bytes) (k : Nat) : HostSim (Same fun w : List Word => k ≤ w.length) (itemHost mem)
    (itemHost mem) := by
  refine ⟨fun c s t ⟨hst, hs⟩ => ⟨by rw [hst], ?_⟩, fun a => Sim.pure _⟩
  show k ≤ (s ++ [c]).length
  rw [List.length_append]
  omega

theorem put_prints (c : Word) : Prints ((itemHost mem).put c) := by
  intro w a w' h
  cases h
  show w.length < (w ++ [c]).length
  simp

theorem put_grows (c : Word) : Grows ((itemHost mem).put c) := fun _ _ _ h => (put_prints c h).le

theorem pure_grows (a : α) : Grows (pure a) := by
  intro w b w' h
  cases h
  exact le_rfl

theorem convert_grows (ap : VaList) (i : Nat) (fl : Flags) (c : Byte) :
    Grows (convert (itemHost mem) lim (printfmt (itemHost mem) lim) ap i fl c) :=
  grows_of_sim fun k => convert_sim (itemHost_sim mem k) lim (printfmt_sim (itemHost_sim mem k) lim) ap i fl c

theorem number_prints (fl : Flags) (num : BitVec 64) (base : Base) : Prints (number (itemHost mem) fl num base) := by
  unfold number
  rw [printnum_eq]
  refine Prints.bind_right (grows_of_sim fun k => Sim.ite ?_ ?_) fun _ => put_prints _
  · exact printnum_sim (itemHost_sim mem k) _ _ _ _
  · exact pad_sim (itemHost_sim mem k) _ _

theorem pad_prints (c : Word) {n : Nat} (hn : 0 < n) : Prints (pad (itemHost mem) c n) := by
  obtain ⟨n, rfl⟩ : ∃ m, n = m + 1 := ⟨n - 1, by omega⟩
  exact (put_prints c).bind_left fun _ => grows_of_sim fun k => pad_sim (itemHost_sim mem k) _ _

/-! ## The strings that print nothing -/

/-- `%s` prints neither a character nor padding. -/
def SilentString (mem : Bytes) (fl : Flags) (p : Ptr) : Prop :=
  fl.width.toInt ≤ 0 ∧ (p.byte mem 0 = 0#8 ∨ fl.precision = 0#32)

/-- The pointer that `%s` prints from. -/
def strArg (a : Word) : Ptr := if a = 0#32 then .lit (strLit "(null)") 0 else .mem a

theorem loadAt_run (p : Ptr) (w : List Word) : ((itemHost mem).loadAt p).run w = some (p.byte mem 0, w) := by
  cases p with
  | mem a =>
    show some (mem a, w) = some (mem (a + 0#32), w)
    rw [BitVec.add_zero]
  | lit s i => rfl

variable {p : Ptr} {fl : Flags} {w w' : List Word}

theorem strnlen_empty {size n r : Word} (h : p.byte mem 0 = 0#8 ∨ size = 0#32)
    (hr : (strnlen (itemHost mem) lim p size n).run w = some (r, w')) : r = n ∧ w' = w := by
  cases lim with
  | zero => cases hr
  | succ lim =>
    unfold strnlen at hr
    by_cases hs : size = 0#32
    · rw [if_pos hs] at hr
      cases hr
      exact ⟨rfl, rfl⟩
    · rw [if_neg hs, run_bind_of (loadAt_run p w), if_pos (h.resolve_right hs)] at hr
      cases hr
      exact ⟨rfl, rfl⟩

theorem putLoop_empty {alt : Bool} {precision width r : Word} (h : p.byte mem 0 = 0#8 ∨ precision = 0#32)
    (hr : (putLoop (itemHost mem) alt lim p precision width).run w = some (r, w')) : r = width ∧ w' = w := by
  cases lim with
  | zero => cases hr
  | succ lim =>
    unfold putLoop at hr
    rw [run_bind_of (loadAt_run p w)] at hr
    dsimp only at hr
    have hstop : p.byte mem 0 = 0#8 ∨ 0 ≤ precision.toInt ∧
        (if 0 ≤ precision.toInt then precision - 1#32 else precision).toInt < 0 := by
      refine h.imp_right ?_
      rintro rfl
      decide
    rw [if_pos hstop] at hr
    cases hr
    exact ⟨rfl, rfl⟩

theorem putLoop_prints {alt : Bool} {precision width : Word} (h : ¬ (p.byte mem 0 = 0#8 ∨ precision = 0#32)) :
    Prints (putLoop (itemHost mem) alt lim p precision width) := by
  intro w r w' hr
  cases lim with
  | zero => cases hr
  | succ lim =>
    unfold putLoop at hr
    rw [run_bind_of (loadAt_run p w)] at hr
    dsimp only at hr
    have hstop : ¬ (p.byte mem 0 = 0#8 ∨
        0 ≤ precision.toInt ∧ (if 0 ≤ precision.toInt then precision - 1#32 else precision).toInt < 0) := by
      rintro (hb | ⟨hp, hn⟩)
      · exact h (Or.inl hb)
      · rw [if_pos hp] at hn
        have hne : precision ≠ 0#32 := fun he => h (Or.inr he)
        rw [BitVec.toInt_eq_toNat_cond] at hp hn
        split at hp <;> split at hn <;> bv_omega
    rw [if_neg hstop] at hr
    refine Prints.bind_left (Prints.ite (fun _ => put_prints _) fun _ => put_prints _) (fun _ => ?_) hr
    exact grows_of_sim fun k => putLoop_sim (itemHost_sim mem k) _ _ _ _ _

theorem turns_pos {width : Word} (h : 0 < width.toInt) : 0 < turns width := by
  unfold turns
  omega

theorem putString_silent (h : SilentString mem fl p) (hr : (putString (itemHost mem) lim fl p).run w = some ((), w')) :
    w' = w := by
  unfold putString at hr
  rw [if_neg (fun hw => absurd hw.1 (not_lt.2 h.1))] at hr
  obtain ⟨width, w₁, h₁, hr₁⟩ := run_bind_some hr
  cases h₁
  obtain ⟨width, w₂, h₂, hr₂⟩ := run_bind_some hr₁
  obtain ⟨rfl, rfl⟩ := putLoop_empty h.2 h₂
  have hzero : turns fl.width = 0 := by
    have := h.1
    unfold turns
    omega
  rw [hzero] at hr₂
  cases hr₂
  rfl

theorem putString_prints (h : ¬ SilentString mem fl p) : Prints (putString (itemHost mem) lim fl p) := by
  have hgrow : ∀ n, Grows (pad (itemHost mem) (charInt (chr ' ')) n) :=
    fun n => grows_of_sim fun k => pad_sim (itemHost_sim mem k) _ _
  have hfront : Grows (if 0 < fl.width.toInt ∧ fl.padc ≠ chr '-' then do
      let len ← strnlen (itemHost mem) lim p fl.precision 0#32
      pad (itemHost mem) (charInt fl.padc) (turns (fl.width - len))
      pure (if 0 < (fl.width - len).toInt then 0#32 else fl.width - len)
    else pure fl.width) := by
    refine grows_of_sim fun k => Sim.ite ?_ (Sim.pure _)
    exact (strnlen_sim (itemHost_sim mem k) _ _ _ _).bind fun _ => (pad_sim (itemHost_sim mem k) _ _).bind fun _ => Sim.pure _
  by_cases hempty : p.byte mem 0 = 0#8 ∨ fl.precision = 0#32
  · have hwidth : 0 < fl.width.toInt := by
      by_contra hw
      exact h ⟨not_lt.1 hw, hempty⟩
    have hloop : ∀ width, Grows (putLoop (itemHost mem) fl.altflag lim p fl.precision width >>= fun width =>
        pad (itemHost mem) (charInt (chr ' ')) (turns width)) := fun width =>
      Grows.bind (grows_of_sim fun k => putLoop_sim (itemHost_sim mem k) _ _ _ _ _) fun _ => hgrow _
    by_cases hdash : fl.padc = chr '-'
    · intro w r w' hr
      unfold putString at hr
      rw [if_neg (fun hw => hw.2 hdash)] at hr
      obtain ⟨width, w₁, h₁, hr₁⟩ := run_bind_some hr
      cases h₁
      obtain ⟨width, w₂, h₂, hr₂⟩ := run_bind_some hr₁
      obtain ⟨rfl, rfl⟩ := putLoop_empty hempty h₂
      exact pad_prints _ (turns_pos hwidth) hr₂
    · unfold putString
      rw [if_pos ⟨hwidth, hdash⟩]
      refine Prints.bind_left ?_ hloop
      intro w r w' hr
      obtain ⟨len, w₁, h₁, hr₁⟩ := run_bind_some hr
      obtain ⟨rfl, rfl⟩ := strnlen_empty hempty h₁
      refine Prints.bind_left (pad_prints _ (turns_pos ?_)) (fun _ => pure_grows _) hr₁
      rwa [BitVec.sub_zero]
  · exact Prints.bind_right hfront fun width => (putLoop_prints hempty).bind_left fun _ => hgrow _

/-! ## The items that print nothing -/

/-- All items are `%s` that print nothing. -/
def Silent (mem : Bytes) (ap : Nat → Word) : List Item → Nat → Prop
  | [], _ => True
  | .lit _ :: _, _ => False
  | .bad _ _ :: _, _ => False
  | .conv fs c :: is, i =>
    let s := Flags.scan ap none {} i fs
    c = chr 's' ∧ SilentString mem s.1 (strArg (ap s.2)) ∧ Silent mem ap is (s.2 + 1)

theorem printfmt_error_prints (args : VaList) : Prints (printfmt (itemHost mem) lim (strLit "error %d") args) := by
  unfold printfmt
  cases lim with
  | zero =>
    intro w a w' h
    cases h
  | succ n =>
    intro w a w' hr
    have hget : ((litFormat (List Word) (strLit "error %d")).get 0).run w = some (chr 'e', w) := rfl
    rw [fmtLoop, run_bind_of hget, if_neg (by decide), if_pos (by decide)] at hr
    refine (put_prints _).bind_left (fun _ => grows_of_sim fun k => ?_) hr
    exact fmtLoop_sim (itemHost_sim mem k) (litFormat_sim _) _ (fun _ _ => Sim.fail) _ _ _ _

theorem convert_s_run {pf : List Byte → VaList → Prog (List Word) Unit} {i j : Nat}
    (hr : (convert (itemHost mem) lim pf (fun i => .mem (ap i)) i fl (chr 's')).run w = some (j, w')) :
    (putString (itemHost mem) lim fl (strArg (ap i))).run w = some ((), w') ∧ j = i + 1 := by
  obtain ⟨u, w₁, h₁, hr₁⟩ := run_bind_some (m := putString (itemHost mem) lim fl (strArg (ap i)))
    (f := fun _ => pure (i + 1)) hr
  cases hr₁
  exact ⟨h₁, rfl⟩

theorem printfmt_string_prints {s : List Byte} (hs : s.getD 0 0#8 ≠ 0#8) :
    Prints (printfmt (itemHost mem) lim (strLit "%s") fun _ => .lit s 0) := by
  unfold printfmt
  cases lim with
  | zero =>
    intro w a w' h
    cases h
  | succ n =>
    intro w a w' hr
    have hget : ((litFormat (List Word) (strLit "%s")).get 0).run w = some (chr '%', w) := rfl
    have hscan : (reswitch (litFormat (List Word) (strLit "%s")) (fun _ => .lit s 0) (n + 1)
        ((litFormat (List Word) (strLit "%s")).next 0) {} 0).run w = some ((chr 's', 2, {}, 0), w) :=
          reswitch_end _ rfl (by decide)
    rw [fmtLoop, run_bind_of hget, if_neg (by decide), if_neg (not_not_intro rfl), run_bind_of hscan] at hr
    dsimp only at hr
    rw [if_pos (by decide)] at hr
    have hne : ¬ SilentString mem {} (.lit s 0) := by
      rintro ⟨-, hb | hp⟩
      · exact hs hb
      · exact absurd hp (by decide)
    refine Prints.bind_left (m := convert _ _ _ _ _ _ _) ?_ (fun _ => ?_) hr
    · exact Prints.bind_left (m := putString (itemHost mem) (n + 1) {} (.lit s 0)) (putString_prints hne) fun _ => pure_grows _
    · exact grows_of_sim fun k => fmtLoop_sim (itemHost_sim mem k) (litFormat_sim _) _ (fun _ _ => Sim.fail) _ _ _ _

theorem errorString_head (k : Nat) (h : errorString.getD k [] ≠ []) : (errorString.getD k []).getD 0 0#8 ≠ 0#8 := by
  have hall : ∀ s ∈ errorString, s ≠ [] → s.getD 0 0#8 ≠ 0#8 := by decide
  by_cases hk : k < errorString.length
  · rw [List.getD_eq_getElem _ _ hk] at h ⊢
    exact hall _ (List.getElem_mem hk) h
  · exact absurd (List.getD_eq_default _ _ (by omega)) h

/-- A conversion other than `%s` prints. -/
theorem convert_prints (i : Nat) (fl : Flags) {c : Byte} (hc : c ∈ conversions) (hs : c ≠ chr 's') :
    Prints (convert (itemHost mem) lim (printfmt (itemHost mem) lim) (fun i => .mem (ap i)) i fl c) := by
  have hget : ∀ (args : VaList) i l, Grows (getuint args i l) := fun args i l => grows_of_sim fun _ => getuint_sim args i l
  have hget' : ∀ (args : VaList) i l, Grows (getint args i l) := fun args i l => grows_of_sim fun _ => getint_sim args i l
  rcases (conversions_cases c hc).resolve_left hs with rfl | rfl | rfl | rfl | rfl | rfl | rfl | rfl
  · exact Prints.bind_right (m := (Ptr.mem (ap i)).word) (pure_grows _) fun _ => (put_prints _).bind_left fun _ => pure_grows _
  · refine Prints.bind_right (m := (Ptr.mem (ap i)).word) (pure_grows _) fun err => Prints.bind_left (Prints.ite
      (fun _ => printfmt_error_prints _) fun h => printfmt_string_prints ?_) fun _ => pure_grows _
    exact errorString_head _ fun hnil => h (Or.inr hnil)
  · exact Prints.bind_right (hget' _ _ _) fun _ => Prints.bind_left (Prints.ite
      (fun _ => (put_prints _).bind_left fun _ => fun _ _ _ h => (number_prints _ _ _ h).le)
      fun _ => number_prints _ _ _) fun _ => pure_grows _
  · exact Prints.bind_right (hget _ _ _) fun _ => (number_prints _ _ _).bind_left fun _ => pure_grows _
  · refine (put_prints _).bind_left fun _ => (put_grows _).bind fun _ => Grows.bind (m := (Ptr.mem (ap i)).word) (pure_grows _)
      fun _ => Grows.bind (fun _ _ _ h => (number_prints _ _ _ h).le) fun _ => pure_grows _
  · exact Prints.bind_right (hget _ _ _) fun _ => (number_prints _ _ _).bind_left fun _ => pure_grows _
  · exact (put_prints _).bind_left fun _ => (put_grows _).bind fun _ => (put_grows _).bind fun _ => pure_grows _
  · exact (put_prints _).bind_left fun _ => pure_grows _

theorem putAll_grows : ∀ cs, Grows (putAll (itemHost mem) cs)
  | [] => pure_grows _
  | _ :: cs => (put_grows _).bind fun _ => putAll_grows cs

theorem runItems_grows (ap : Nat → Word) : ∀ (is : List Item) (i : Nat), Grows (runItems (itemHost mem) lim ap is i)
  | [], _ => pure_grows _
  | .lit _ :: is, _ => (putAll_grows _).bind fun _ => runItems_grows ap is _
  | .conv _ _ :: is, _ => (convert_grows _ _ _ _).bind fun _ => runItems_grows ap is _
  | .bad _ _ :: is, _ => (putAll_grows _).bind fun _ => runItems_grows ap is _

/-- Nothing is printed exactly when the items are silent. -/
theorem runItems_silent (is : List Item) (hconv : ∀ fs c, Item.conv fs c ∈ is → c ∈ conversions) :
    ∀ (i : Nat) (w w' : List Word), (runItems (itemHost mem) lim ap is i).run w = some ((), w') →
      (w' = w ↔ Silent mem ap is i) := by
  have hne : ∀ {w w' : List Word}, w.length < w'.length → w' ≠ w := fun hlt he => absurd hlt (by rw [he]; exact lt_irrefl _)
  have hput : ∀ (c : Byte) (cs : List Byte), Prints (putAll (itemHost mem) (c :: cs)) :=
    fun c cs => (put_prints _).bind_left fun _ => putAll_grows cs
  induction is with
  | nil =>
    intro i w w' h
    cases h
    exact iff_of_true rfl trivial
  | cons item is ih =>
    have ih := ih fun fs c hc => hconv fs c (List.mem_cons_of_mem _ hc)
    intro i w w' h
    cases item with
    | lit c => exact iff_of_false (hne ((hput c []).bind_left (fun _ => runItems_grows ap is _) h)) id
    | bad fs c => exact iff_of_false (hne ((hput _ _).bind_left (fun _ => runItems_grows ap is _) h)) id
    | conv fs c =>
      obtain ⟨j, w₁, h₁, hr⟩ := run_bind_some (m := convert _ _ _ _ _ _ _) h
      have hgrow := runItems_grows ap is _ hr
      by_cases hs : c = chr 's'
      · -- `%s` is the only conversion that can print nothing
        subst hs
        obtain ⟨hstr, rfl⟩ := convert_s_run h₁
        by_cases hsil : SilentString mem (Flags.scan ap none {} i fs).1 (strArg (ap (Flags.scan ap none {} i fs).2))
        · rw [putString_silent hsil hstr] at hr
          rw [ih _ _ _ hr]
          constructor
          · intro h'
            exact ⟨rfl, hsil, h'⟩
          · intro h'
            exact h'.2.2
        · have hlt := putString_prints hsil hstr
          exact iff_of_false (hne (hlt.trans_le hgrow)) fun h' => hsil h'.2.1
      · have hlt := convert_prints _ _ (hconv fs c (List.mem_cons_self ..)) hs h₁
        exact iff_of_false (hne (hlt.trans_le hgrow)) fun h' => hs h'.1

/-! ## The counts -/

variable {f : Word} {cs : List Byte} {w : List Word}

/-- What the host that guards the format has printed is what the unbounded sink gets. -/
theorem emitted_of_guard {len low : Nat}
    (h : (vprintfmt (guardHost (fun c (w : List Word) => w ++ [c]) mem f len) lim f ap).run ([], 0) = some ((), w, low)) :
    emitted mem (fun _ => false) lim f ap = some w := by
  have H : HostSim (fun (s : List Word × Nat) w => s.1 = w) (guardHost (fun c (w : List Word) => w ++ [c]) mem f len)
      (listHost mem fun _ => false) :=
    ⟨fun c s t hst => by rw [← hst]; rfl, fun a => Sim.pure _⟩
  obtain ⟨w', hr, rfl⟩ := vprintfmt_sim H (fun a => by
    intro s t hst b s' hb
    obtain ⟨hc, hb⟩ := Option.ite_none_right_eq_some.1 hb
    cases hb
    exact ⟨t, rfl, hst⟩) lim f ap rfl h
  unfold emitted
  rw [hr]
  rfl

/-- The three counts agree exactly when the format prints nothing: it is a sequence of `%s` of empty strings, or cut to
no characters, without a width. -/
theorem same_count_iff_silent (h : IsFormat mem f cs) (hargs : RightArgs mem ap (items cs) 0) :
    ∃ N, ∀ lim, N ≤ lim → ∃ w, emitted mem (fun _ => false) lim f ap = some w ∧
      (w.length < 2 ^ 31 → (SameCount lim mem f ap w.length ↔ Silent mem ap (items cs) 0)) := by
  obtain ⟨N, hN⟩ := runItems_returns (fun c (w : List Word) => w ++ [c]) (items cs) 0 (items_conv cs) hargs
  refine ⟨max N (cs.length + 1), fun lim hlim => ?_⟩
  obtain ⟨_, w, hitems, -⟩ := hN lim (by omega) []
  obtain ⟨low, hrun⟩ := vprintfmt_runs h (by omega) hitems
  have hw := emitted_of_guard hrun
  refine ⟨w, hw, fun hlen => ?_⟩
  rw [same_count_iff_nil hw hlen]
  exact runItems_silent (items cs) (items_conv cs) 0 [] w hitems

theorem same_count_iff_silent_string : ∃ N, ∀ lim, N ≤ lim → ∃ w,
    emitted (withStrings [(0x1000#32, strLit "%s")]) (fun _ => false) lim 0x1000#32 (fun _ => 0x2000#32) = some w ∧
      (w.length < 2 ^ 31 → SameCount lim (withStrings [(0x1000#32, strLit "%s")]) 0x1000#32 (fun _ => 0x2000#32) w.length) := by
  have hitems : items (strLit "%s") = [.conv [] (chr 's')] := by
    have hesc := items_escape (c := [chr 's']) (r := []) (d := chr 's') (by decide)
    rw [items] at hesc
    exact hesc
  have hfmt : IsFormat (withStrings [(0x1000#32, strLit "%s")]) 0x1000#32 (strLit "%s") := ⟨by decide, by decide⟩
  have hargs : RightArgs (withStrings [(0x1000#32, strLit "%s")]) (fun _ => 0x2000#32) (items (strLit "%s")) 0 := by
    rw [hitems]
    exact ⟨fun _ => Or.inr ⟨0, by decide⟩, trivial⟩
  obtain ⟨N, hN⟩ := same_count_iff_silent hfmt hargs
  refine ⟨N, fun lim hlim => ?_⟩
  obtain ⟨w, hw, hiff⟩ := hN lim hlim
  refine ⟨w, hw, fun hlen => (hiff hlen).2 ?_⟩
  rw [hitems]
  exact ⟨rfl, ⟨by decide, Or.inl (by decide)⟩, trivial⟩

end Jos
