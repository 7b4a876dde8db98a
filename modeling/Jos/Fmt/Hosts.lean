/-
`vprintfmt` takes the same course over any two hosts whose operations correspond.
-/
import Jos.Fmt.Printfmt

namespace Jos

open Lib

variable {σ τ π : Type} {R : σ → τ → Prop} {h : Host σ} {g : Host τ} {F : Format σ π} {G : Format τ π}

/-- Output and the bytes of strings correspond. -/
structure HostSim (R : σ → τ → Prop) (h : Host σ) (g : Host τ) : Prop where
  put : ∀ c ⦃s t⦄, R s t → R (h.putch c s) (g.putch c t)
  load : ∀ a, Sim R (h.load a) (g.load a)

/-- The formats correspond. -/
structure FormatSim (R : σ → τ → Prop) (F : Format σ π) (G : Format τ π) : Prop where
  get : ∀ p, Sim R (F.get p) (G.get p)
  next : F.next = G.next
  prev : F.prev = G.prev

theorem litFormat_sim (s : List Byte) : FormatSim R (litFormat σ s) (litFormat τ s) := ⟨fun _ => Sim.pure _, rfl, rfl⟩

theorem memFormat_sim (hf : ∀ a, Sim R (h.fetch a) (g.fetch a)) : FormatSim R (memFormat h) (memFormat g) := ⟨hf, rfl, rfl⟩

theorem HostSim.putC (H : HostSim R h g) (c : Word) : Sim R (h.put c) (g.put c) := Sim.update (H.put c)

theorem HostSim.loadAt (H : HostSim R h g) : ∀ p, Sim R (h.loadAt p) (g.loadAt p)
  | .mem a => H.load a
  | .lit _ _ => Sim.pure _

theorem word_sim : ∀ p : Ptr, Sim R p.word p.word
  | .mem _ => Sim.pure _
  | .lit _ _ => Sim.fail

theorem pad_sim (H : HostSim R h g) (c : Word) : ∀ n, Sim R (pad h c n) (pad g c n)
  | 0 => Sim.pure _
  | n + 1 => (H.putC c).bind fun _ => pad_sim H c n

theorem printnum_sim (H : HostSim R h g) (base : Base) (padc : Word) (num : Nat) (width : Word) :
    Sim R (printnum h num base width padc) (printnum g num base width padc) := by
  induction num using Nat.strong_induction_on generalizing width with
  | _ num ih =>
    rw [printnum_eq h, printnum_eq g num base width padc]
    refine Sim.bind ?_ fun _ => H.putC _
    by_cases hge : base.1 ≤ num
    · have hbase := base.2
      rw [if_pos hge, if_pos hge]
      exact ih _ (Nat.div_lt_self (by omega) hbase) _
    · rw [if_neg hge, if_neg hge]
      exact pad_sim H _ _

theorem number_sim (H : HostSim R h g) (fl : Flags) (num : BitVec 64) (base : Base) :
    Sim R (number h fl num base) (number g fl num base) := printnum_sim H _ _ _ _

theorem getuint_sim (args : VaList) (i : Nat) (l : Word) : Sim R (getuint args i l) (getuint args i l) :=
  (word_sim _).bind fun _ => Sim.ite ((word_sim _).bind fun _ => Sim.pure _) (Sim.pure _)

theorem getint_sim (args : VaList) (i : Nat) (l : Word) : Sim R (getint args i l) (getint args i l) :=
  (word_sim _).bind fun _ => Sim.ite ((word_sim _).bind fun _ => Sim.pure _) (Sim.pure _)

theorem strnlen_sim (H : HostSim R h g) : ∀ (lim : Nat) (s : Ptr) (size n : Word),
    Sim R (strnlen h lim s size n) (strnlen g lim s size n)
  | 0, _, _, _ => Sim.fail
  | lim + 1, s, size, n => by
    unfold strnlen
    refine Sim.ite (Sim.pure _) ((H.loadAt s).bind fun c => Sim.ite (Sim.pure _) (strnlen_sim H lim _ _ _))

theorem putLoop_sim (H : HostSim R h g) (alt : Bool) : ∀ (lim : Nat) (p : Ptr) (precision width : Word),
    Sim R (putLoop h alt lim p precision width) (putLoop g alt lim p precision width)
  | 0, _, _, _ => Sim.fail
  | lim + 1, p, precision, width => by
    unfold putLoop
    refine (H.loadAt p).bind fun ch => Sim.ite (Sim.pure _) (Sim.bind ?_ fun _ => putLoop_sim H alt lim _ _ _)
    exact Sim.ite (H.putC _) (H.putC _)

theorem putString_sim (H : HostSim R h g) (lim : Nat) (fl : Flags) (p : Ptr) :
    Sim R (putString h lim fl p) (putString g lim fl p) := by
  refine Sim.bind (Sim.ite ?_ (Sim.pure _)) fun _ => (putLoop_sim H _ _ _ _ _).bind fun _ => pad_sim H _ _
  exact (strnlen_sim H _ _ _ _).bind fun _ => (pad_sim H _ _).bind fun _ => Sim.pure _

theorem digits_sim (HF : FormatSim R F G) : ∀ (lim : Nat) (ch : Byte) (fmt : π) (precision : Word),
    Sim R (digits F lim ch fmt precision) (digits G lim ch fmt precision)
  | 0, _, _, _ => Sim.fail
  | lim + 1, ch, fmt, precision => by
    unfold digits
    rw [HF.next]
    exact (HF.get fmt).bind fun c => Sim.ite (Sim.pure _) (digits_sim HF lim _ _ _)

theorem reswitch_sim (HF : FormatSim R F G) (args : VaList) : ∀ (lim : Nat) (fmt : π) (fl : Flags) (i : Nat),
    Sim R (reswitch F args lim fmt fl i) (reswitch G args lim fmt fl i)
  | 0, _, _, _ => Sim.fail
  | lim + 1, fmt, fl, i => by
    have ih := reswitch_sim HF args lim
    unfold reswitch
    rw [HF.next]
    refine (HF.get fmt).bind fun c => ?_
    refine Sim.ite (ih _ _ _) (Sim.ite (ih _ _ _) (Sim.ite ?_ (Sim.ite ?_ (Sim.ite (ih _ _ _) (Sim.ite (ih _ _ _)
      (Sim.ite (ih _ _ _) (Sim.pure _)))))))
    · exact (digits_sim HF lim _ _ _).bind fun _ => ih _ _ _
    · exact (word_sim _).bind fun _ => ih _ _ _

theorem rewind_sim (HF : FormatSim R F G) : ∀ (lim : Nat) (fmt : π), Sim R (rewind F lim fmt) (rewind G lim fmt)
  | 0, _ => Sim.fail
  | lim + 1, fmt => by
    unfold rewind
    rw [HF.prev]
    exact (HF.get _).bind fun c => Sim.ite (Sim.pure _) (rewind_sim HF lim _)

theorem convert_sim (H : HostSim R h g) (lim : Nat) {pf : List Byte → VaList → Prog σ Unit}
    {pg : List Byte → VaList → Prog τ Unit} (hp : ∀ s a, Sim R (pf s a) (pg s a)) (args : VaList) (i : Nat) (fl : Flags)
    (ch : Byte) : Sim R (convert h lim pf args i fl ch) (convert g lim pg args i fl ch) := by
  unfold convert
  refine Sim.ite ?_ (Sim.ite ?_ (Sim.ite ?_ (Sim.ite ?_ (Sim.ite ?_ (Sim.ite ?_ (Sim.ite ?_ (Sim.ite ?_ ?_)))))))
  · exact (word_sim _).bind fun _ => (H.putC _).bind fun _ => Sim.pure _
  · exact (word_sim _).bind fun _ => (Sim.ite (hp _ _) (hp _ _)).bind fun _ => Sim.pure _
  · exact (putString_sim H _ _ _).bind fun _ => Sim.pure _
  · exact (getint_sim _ _ _).bind fun _ => (Sim.ite ((H.putC _).bind fun _ => number_sim H _ _ _) (number_sim H _ _ _)).bind
      fun _ => Sim.pure _
  · exact (getuint_sim _ _ _).bind fun _ => (number_sim H _ _ _).bind fun _ => Sim.pure _
  · exact (H.putC _).bind fun _ => (H.putC _).bind fun _ => (H.putC _).bind fun _ => Sim.pure _
  · exact (H.putC _).bind fun _ => (H.putC _).bind fun _ => (word_sim _).bind fun _ => (number_sim H _ _ _).bind
      fun _ => Sim.pure _
  · exact (getuint_sim _ _ _).bind fun _ => (number_sim H _ _ _).bind fun _ => Sim.pure _
  · exact (H.putC _).bind fun _ => Sim.pure _

theorem fmtLoop_sim (H : HostSim R h g) (HF : FormatSim R F G) (lim : Nat) {pf : List Byte → VaList → Prog σ Unit}
    {pg : List Byte → VaList → Prog τ Unit} (hp : ∀ s a, Sim R (pf s a) (pg s a)) (args : VaList) :
    ∀ (n : Nat) (fmt : π) (i : Nat), Sim R (fmtLoop h F lim pf args n fmt i) (fmtLoop g G lim pg args n fmt i)
  | 0, _, _ => Sim.fail
  | n + 1, fmt, i => by
    have ih := fmtLoop_sim H HF lim hp args n
    unfold fmtLoop
    rw [HF.next, HF.prev]
    refine (HF.get fmt).bind fun c => Sim.ite (Sim.pure _) (Sim.ite ?_ ?_)
    · exact (H.putC _).bind fun _ => ih _ _
    · refine (reswitch_sim HF args lim _ _ _).bind fun _ => Sim.ite ?_ ?_
      · exact (convert_sim H lim hp _ _ _ _).bind fun _ => ih _ _
      · exact (H.putC _).bind fun _ => (rewind_sim HF lim _).bind fun _ => ih _ _

theorem printfmt_sim (H : HostSim R h g) (lim : Nat) (s : List Byte) (args : VaList) :
    Sim R (printfmt h lim s args) (printfmt g lim s args) :=
  fmtLoop_sim H (litFormat_sim s) lim (fun _ _ => Sim.fail) args lim 0 0

theorem vprintfmt_sim (H : HostSim R h g) (hf : ∀ a, Sim R (h.fetch a) (g.fetch a)) (lim : Nat) (fmt : Word)
    (ap : Nat → Word) : Sim R (vprintfmt h lim fmt ap) (vprintfmt g lim fmt ap) :=
  fmtLoop_sim H (memFormat_sim hf) lim (printfmt_sim H lim) _ lim fmt 0

end Jos
