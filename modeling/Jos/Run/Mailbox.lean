/-
IPC messages are delivered exactly once. Each environment is a mailbox with room for one message: it
waits, it holds a message, or it has taken one. The kernel keeps the records in step with the
mailboxes, and a trace that the mailboxes admit matches sends and receives one to one.
-/
import Jos.Run.Trace

namespace Jos

open Lib Kern

variable {s s' s₀ s₁ : State} {cur e r : Slot} {k : Cpu} {a : Sect} {tr evs : List IpcEvent} {ev : IpcEvent} {sender value : Word}

/-! ## Mailboxes -/

/-- The mailbox of an environment: it has never run, has had no message, waits for one, holds one, or
has taken one. -/
inductive Box where
  | fresh
  | idle
  | waiting
  | full (sender value : Word)
  | taken (sender value : Word)

/-- The mailbox of slot `e` after a trace. -/
def box : List IpcEvent → Slot → Box
  | [], _ => .fresh
  | ev :: tr, e =>
    if ev.slot = e then
      match ev with
      | .born _ => .fresh
      | .receive _ _ => .waiting
      | .send sender _ value => .full sender value
      | .resume _ _ _ _ =>
        match box tr e with
        | .fresh => .idle
        | .full sender value => .taken sender value
        | b => b
    else box tr e

/-- What may happen to an environment with mailbox `b`: only one that is not waiting goes on, and it
finds its message. -/
def Box.Admits (b : Box) : IpcEvent → Prop
  | .born _ => True
  | .receive _ _ => b = .idle ∨ ∃ sender value, b = .taken sender value
  | .send _ _ _ => b = .waiting
  | .resume _ eax value sender =>
    match b with
    | .fresh => True
    | .idle => True
    | .waiting => False
    | .full sender' value' => eax = 0#32 ∧ value = value' ∧ sender = sender'
    | .taken sender' value' => value = value' ∧ sender = sender'

/-- Every event of the trace was admitted. -/
def Sound : List IpcEvent → Prop
  | [] => True
  | ev :: tr => (box tr ev.slot).Admits ev ∧ Sound tr

theorem box_cons_other (h : ev.slot ≠ e) : box (ev :: tr) e = box tr e := if_neg h

theorem box_append_other (h : ∀ ev ∈ evs, ev.slot ≠ e) : box (evs ++ tr) e = box tr e := by
  induction evs with
  | nil => rfl
  | cons ev evs ih =>
    rw [List.cons_append, box_cons_other (h ev (List.mem_cons_self ..)), ih fun x hx => h x (List.mem_cons_of_mem _ hx)]

@[simp] theorem box_born : box (.born e :: tr) e = .fresh := if_pos rfl

@[simp] theorem box_receive (tf : Trapframe) : box (.receive e tf :: tr) e = .waiting := if_pos rfl

@[simp] theorem box_send : box (.send sender e value :: tr) e = .full sender value := if_pos rfl

theorem box_resume (eax v f : Word) : box (.resume e eax v f :: tr) e =
    match box tr e with
    | .fresh => .idle
    | .full sender value => .taken sender value
    | b => b := if_pos rfl

/-! ## What a sound trace says -/

/-- A waiting mailbox waits since its last receive. -/
theorem waiting_since (h : Sound tr) (hb : box tr r = .waiting) :
    ∃ mid tf rest, tr = mid ++ .receive r tf :: rest ∧ ∀ ev ∈ mid, ev.slot ≠ r := by
  induction tr with
  | nil => cases hb
  | cons ev tr ih =>
    by_cases he : ev.slot = r
    · cases ev with
      | born e =>
        obtain rfl : e = r := he
        rw [box_born] at hb
        cases hb
      | send sender e value =>
        obtain rfl : e = r := he
        rw [box_send] at hb
        cases hb
      | receive e tf =>
        obtain rfl : e = r := he
        exact ⟨[], tf, tr, rfl, by simp⟩
      | resume e eax v f =>
        obtain rfl : e = r := he
        have ha : (box tr e).Admits (.resume e eax v f) := h.1
        rw [box_resume] at hb
        cases hbox : box tr e <;> rw [hbox] at hb ha <;> cases hb
        exact absurd ha id
    · rw [box_cons_other he] at hb
      obtain ⟨mid, tf, rest, rfl, hm⟩ := ih h.2 hb
      refine ⟨ev :: mid, tf, rest, rfl, fun x hx => ?_⟩
      rcases List.mem_cons.1 hx with rfl | hx
      · exact he
      · exact hm x hx

/-- The event neither starts a receive of `r` nor makes `r` anew. -/
def IpcEvent.Keeps (r : Slot) : IpcEvent → Prop
  | .born e => e ≠ r
  | .receive e _ => e ≠ r
  | _ => True

/-- The mailbox of `r` and what happened to it since its last receive. -/
inductive Since (r : Slot) (mid : List IpcEvent) : Box → Prop where
  | waiting (h : ∀ ev ∈ mid, ev.slot ≠ r) : Since r mid .waiting
  | full {sender value : Word} {m₁ m₂ : List IpcEvent} (h : mid = m₁ ++ .send sender r value :: m₂)
      (h₁ : ∀ ev ∈ m₁, ev.slot ≠ r) (h₂ : ∀ ev ∈ m₂, ev.slot ≠ r) : Since r mid (.full sender value)
  | taken {sender value : Word} {m₁ m₂ : List IpcEvent} (h : mid = m₁ ++ .send sender r value :: m₂)
      (h₁ : ∀ ev ∈ m₁, ∀ sender value, ev ≠ .send sender r value) (h₂ : ∀ ev ∈ m₂, ev.slot ≠ r)
      (hres : ∃ ev ∈ m₁, ev.slot = r) : Since r mid (.taken sender value)

theorem Since.cons_other {mid : List IpcEvent} {b : Box} (h : Since r mid b) (he : ev.slot ≠ r) : Since r (ev :: mid) b := by
  have hcons : ∀ {m : List IpcEvent}, (∀ x ∈ m, x.slot ≠ r) → ∀ x ∈ ev :: m, x.slot ≠ r := by
    intro m hm x hx
    rcases List.mem_cons.1 hx with rfl | hx
    · exact he
    · exact hm x hx
  cases h with
  | waiting h => exact .waiting (hcons h)
  | full h h₁ h₂ => exact .full (by rw [h]; rfl) (hcons h₁) h₂
  | @taken sender value m₁ m₂ h h₁ h₂ hres =>
    have hmid : ev :: mid = (ev :: m₁) ++ .send sender r value :: m₂ := by rw [h]; rfl
    refine .taken hmid (fun x hx => ?_) h₂ ?_
    · rcases List.mem_cons.1 hx with rfl | hx
      · rintro _ _ rfl
        exact he rfl
      · exact h₁ x hx
    · obtain ⟨x, hx, hs⟩ := hres
      exact ⟨x, List.mem_cons_of_mem _ hx, hs⟩

theorem since_receive {mid rest : List IpcEvent} {tf : Trapframe} (h : Sound (mid ++ .receive r tf :: rest))
    (hk : ∀ ev ∈ mid, ev.Keeps r) : Since r mid (box (mid ++ .receive r tf :: rest) r) := by
  induction mid with
  | nil =>
    show Since r [] (box (.receive r tf :: rest) r)
    rw [box_receive]
    exact .waiting (by simp)
  | cons ev mid ih =>
    have hs := ih h.2 fun x hx => hk x (List.mem_cons_of_mem _ hx)
    have hev := hk ev (List.mem_cons_self ..)
    rw [List.cons_append]
    by_cases he : ev.slot = r
    · cases ev with
      | born e => exact absurd he hev
      | receive e _ => exact absurd he hev
      | send sender e value =>
        obtain rfl : e = r := he
        -- a send finds the mailbox waiting
        have ha : box (mid ++ .receive e tf :: rest) e = .waiting := h.1
        rw [ha] at hs
        rw [box_send]
        cases hs with
        | waiting h =>
          have hmid : .send sender e value :: mid = [] ++ .send sender e value :: mid := rfl
          exact .full hmid (by simp) h
      | resume e eax v f =>
        obtain rfl : e = r := he
        have ha : (box (mid ++ .receive e tf :: rest) e).Admits (.resume e eax v f) := h.1
        rw [box_resume]
        generalize box (mid ++ .receive e tf :: rest) e = b at hs ha
        cases hs with
        | waiting h => exact absurd ha id
        | @full sender value m₁ m₂ h h₁ h₂ =>
          have hmid : .resume e eax v f :: mid = (.resume e eax v f :: m₁) ++ .send sender e value :: m₂ := by rw [h]; rfl
          refine .taken hmid (fun x hx => ?_) h₂ ⟨_, List.mem_cons_self .., rfl⟩
          rcases List.mem_cons.1 hx with rfl | hx
          · simp
          · rintro _ _ rfl
            exact h₁ _ hx rfl
        | @taken sender value m₁ m₂ h h₁ h₂ hres =>
          have hmid : .resume e eax v f :: mid = (.resume e eax v f :: m₁) ++ .send sender e value :: m₂ := by rw [h]; rfl
          refine .taken hmid (fun x hx => ?_) h₂ ⟨_, List.mem_cons_self .., rfl⟩
          rcases List.mem_cons.1 hx with rfl | hx
          · simp
          · exact h₁ x hx
    · rw [box_cons_other he]
      exact hs.cons_other he

theorem Sound.append (h : Sound (evs ++ tr)) : Sound tr := by
  induction evs with
  | nil => exact h
  | cons ev evs ih => exact ih h.2

/-- After a send, until the next receive, the mailbox has the message. -/
theorem since_send {newer older : List IpcEvent} (h : Sound (newer ++ .send sender r value :: older))
    (hk : ∀ ev ∈ newer, ev.Keeps r) : box (newer ++ .send sender r value :: older) r = .full sender value ∨
    box (newer ++ .send sender r value :: older) r = .taken sender value := by
  induction newer with
  | nil => exact Or.inl box_send
  | cons ev newer ih =>
    have hb := ih h.2 fun x hx => hk x (List.mem_cons_of_mem _ hx)
    have hev := hk ev (List.mem_cons_self ..)
    rw [List.cons_append]
    by_cases he : ev.slot = r
    · cases ev with
      | born e => exact absurd he hev
      | receive e _ => exact absurd he hev
      | send f e v =>
        obtain rfl : e = r := he
        have ha : box (newer ++ .send sender e value :: older) e = .waiting := h.1
        rw [ha] at hb
        rcases hb with hb | hb <;> cases hb
      | resume e eax v f =>
        obtain rfl : e = r := he
        rw [box_resume]
        rcases hb with hb | hb <;> rw [hb]
        · exact Or.inr rfl
        · exact Or.inr rfl
    · rw [box_cons_other he]
      exact hb

/-- Sends and receives match one to one. -/
structure ExactlyOnce (tr : List IpcEvent) : Prop where
  /-- a send that returned 0 follows a receive, with nothing in between for the receiver -/
  matched : ∀ newer older sender r value, tr = newer ++ .send sender r value :: older →
    ∃ mid tf rest, older = mid ++ .receive r tf :: rest ∧ ∀ ev ∈ mid, ev.slot ≠ r
  /-- two sends to one environment are matched with different receives -/
  distinct : ∀ newer mid older sender sender' r value value',
    tr = newer ++ .send sender r value :: (mid ++ .send sender' r value' :: older) → ∃ tf, .receive r tf ∈ mid
  /-- an environment that goes on after a receive has been sent one message since, goes on with 0 in `eax`
  and finds the message -/
  resumed : ∀ newer mid rest r tf eax value sender,
    tr = newer ++ .resume r eax value sender :: (mid ++ .receive r tf :: rest) → (∀ ev ∈ mid, ev.Keeps r) →
    ∃ m₁ m₂, mid = m₁ ++ .send sender r value :: m₂ ∧ (∀ ev ∈ m₂, ev.slot ≠ r) ∧
      (∀ ev ∈ m₁, ∀ sender value, ev ≠ .send sender r value) ∧ ((∀ ev ∈ m₁, ev.slot ≠ r) → eax = 0#32)

theorem Sound.exactlyOnce (h : Sound tr) : ExactlyOnce tr := by
  have hmatched : ∀ newer older sender r value, tr = newer ++ .send sender r value :: older →
      ∃ mid tf rest, older = mid ++ .receive r tf :: rest ∧ ∀ ev ∈ mid, ev.slot ≠ r := by
    rintro newer older sender r value rfl
    exact waiting_since h.append.2 h.append.1
  refine ⟨hmatched, ?_, ?_⟩
  · intro newer mid older sender sender' r value value' htr
    obtain ⟨m, tf, rest, heq, hm⟩ := hmatched newer _ sender r value htr
    -- the receive is newer than the earlier send, which is for `r` too
    rcases List.append_eq_append_iff.1 heq with ⟨l, hl, hl'⟩ | ⟨l, hl, hl'⟩
    · cases l with
      | nil => cases hl'
      | cons x l =>
        rw [List.cons_append] at hl'
        obtain ⟨rfl, -⟩ := List.cons.inj hl'
        have hmem : .send sender' r value' ∈ m := by rw [hl]; simp
        exact absurd rfl (hm _ hmem)
    · cases l with
      | nil => cases hl'
      | cons x l =>
        rw [List.cons_append] at hl'
        obtain ⟨rfl, -⟩ := List.cons.inj hl'
        exact ⟨tf, by rw [hl]; simp⟩
  · rintro newer mid rest r tf eax value sender rfl hk
    have ha : (box (mid ++ .receive r tf :: rest) r).Admits (.resume r eax value sender) := h.append.1
    have hs := since_receive h.append.2 hk
    generalize box (mid ++ .receive r tf :: rest) r = b at ha hs
    cases hs with
    | waiting h => exact absurd ha id
    | full hmid h₁ h₂ =>
      obtain ⟨hz, rfl, rfl⟩ := ha
      refine ⟨_, _, hmid, h₂, fun ev hev => ?_, fun _ => hz⟩
      rintro _ _ rfl
      exact h₁ _ hev rfl
    | taken hmid h₁ h₂ hres =>
      obtain ⟨rfl, rfl⟩ := ha
      obtain ⟨x, hx, hxr⟩ := hres
      exact ⟨_, _, hmid, h₂, h₁, fun hno => absurd hxr (hno x hx)⟩

/-! ## The kernel keeps the mailboxes -/

/-- What the mailbox says of the record. -/
def Box.Holds (b : Box) (v : Env) : Prop :=
  match b with
  | .fresh => v.envIpcRecving = false ∧ v.envStatus ≠ .running ∧ v.envStatus ≠ .dying
  | .idle => v.envIpcRecving = false
  | .waiting => v.envIpcRecving = true ∧ v.envStatus = .notRunnable
  | .full sender value => v.envIpcRecving = false ∧ v.envStatus = .runnable ∧ v.envTf.tfRegs.regEax = 0#32 ∧
      v.envIpcFrom = sender ∧ v.envIpcValue = value
  | .taken sender value => v.envIpcRecving = false ∧ v.envIpcFrom = sender ∧ v.envIpcValue = value

/-- The records of the environments in use agree with the mailboxes. -/
def Delivers (tr : List IpcEvent) (s : State) : Prop :=
  ∀ e, (s.envs e).envStatus ≠ .free → (box tr e).Holds (s.envs e)

/-- Since slot `e` was handed out its environment has not run. -/
def NeverRun (tr : List IpcEvent) (e : Slot) : Prop :=
  ∀ newer older eax value sender, tr = newer ++ .resume e eax value sender :: older → .born e ∈ newer

/-- The section sets the status only of environments that have never run, and does not free one that
another CPU is running. -/
def Gentle (tr : List IpcEvent) (s : State) : Sect → Prop
  | .trap k tf _ c => tf.tfTrapno = tSyscall → ∀ cur, (s.cpus k).cpuEnv = some cur →
    match c with
    | .envSetStatus envid _ => ∀ e, s.resolve cur envid true = some e → NeverRun tr e
    | .envDestroy envid => ∀ e, s.resolve cur envid true = some e → (s.envs e).envStatus = .dying → ¬ s.Elsewhere k e
    | _ => True
  | .start _ => True

theorem NeverRun.tail (h : NeverRun (ev :: tr) e) (hb : ev ≠ .born e) : NeverRun tr e := by
  rintro newer older eax value sender rfl
  rcases List.mem_cons.1 (h (ev :: newer) older eax value sender rfl) with h | h
  · exact absurd h.symm hb
  · exact h

/-- An environment that has never run has not had anything to do with messages. -/
theorem NeverRun.fresh (h : NeverRun tr e) (hs : Sound tr) : box tr e = .fresh := by
  induction tr with
  | nil => rfl
  | cons ev tr ih =>
    by_cases he : ev.slot = e
    · cases ev with
      | born e =>
        obtain rfl : e = _ := he
        exact box_born
      | receive e tf =>
        obtain rfl : e = _ := he
        have ha : (box tr e).Admits (.receive e tf) := hs.1
        rw [ih (h.tail (by simp)) hs.2] at ha
        rcases ha with ha | ⟨_, _, ha⟩ <;> cases ha
      | send sender e value =>
        obtain rfl : e = _ := he
        have ha : box tr e = .waiting := hs.1
        rw [ih (h.tail (by simp)) hs.2] at ha
        cases ha
      | resume e eax value sender =>
        obtain rfl : e = _ := he
        exact absurd (h [] tr eax value sender rfl) (by simp)
    · rw [box_cons_other he]
      refine ih (h.tail ?_) hs.2
      rintro rfl
      exact he rfl

theorem Delivers.running (h : Delivers tr s) (hr : (s.envs e).envStatus = .running) :
    box tr e = .idle ∨ ∃ sender value, box tr e = .taken sender value := by
  have hh := h e (by rw [hr]; simp)
  cases hb : box tr e with
  | fresh => rw [hb] at hh; exact absurd hr hh.2.1
  | idle => exact Or.inl rfl
  | waiting => rw [hb] at hh; rw [hh.2] at hr; cases hr
  | full => rw [hb] at hh; rw [hh.2.1] at hr; cases hr
  | taken sender value => exact Or.inr ⟨_, _, rfl⟩

theorem Delivers.recving (h : Delivers tr s) (hl : (s.envs e).envStatus ≠ .free) (hr : (s.envs e).envIpcRecving = true) :
    box tr e = .waiting := by
  have hh := h e hl
  cases hb : box tr e with
  | waiting => rfl
  | fresh => rw [hb] at hh; rw [hh.1] at hr; cases hr
  | idle => rw [hb] at hh; rw [show (s.envs e).envIpcRecving = false from hh] at hr; cases hr
  | full => rw [hb] at hh; rw [hh.1] at hr; cases hr
  | taken => rw [hb] at hh; rw [hh.1] at hr; cases hr

theorem Gentle.tidy (hg : Gentle tr s a) (hd : Delivers tr s) (hs : Sound tr)
    (hu : ∀ k e, (s.cpus k).cpuEnv = some e → s.Marked e) : Tidy s a := by
  cases a with
  | start k => trivial
  | trap k tf faultVa c =>
    intro htf cur hcur
    have hc := hg htf cur hcur
    cases c with
    | envSetStatus envid status =>
      intro e he
      have hlive := resolve_live he (by rcases hu k cur hcur with h | h <;> rw [h] <;> simp)
      have hh := hd e hlive
      rw [(hc e he).fresh hs] at hh
      refine ⟨?_, fun _ => hh.1⟩
      rintro ⟨k', -, hk'⟩
      rcases hu k' e hk' with h | h
      · exact hh.2.1 h
      · exact hh.2.2 h
    | envDestroy envid => exact hc
    | _ => trivial

/-- A mild change of a record in use. -/
theorem Mild.holds {w : Env} (h : Mild s a e w) (hd : (box tr e).Holds (s.envs e)) (hlive : w.envStatus ≠ .free)
    (hset : ∀ st, a.Sets s e st → box tr e = .fresh) (hold : s.envFreeList ≠ some e) : (box tr e).Holds w := by
  cases h with
  | spawned hl => exact absurd hl hold
  | same hrec hfrom hval htf hst =>
    have hstatus : box tr e ≠ .fresh → w.envStatus = (s.envs e).envStatus ∨ (s.envs e).envStatus = .running := by
      intro hne
      rcases hst with hst | hst | hst | hst
      · exact Or.inl hst
      · exact absurd (hset _ hst) hne
      · exact Or.inr hst.1
      · exact absurd hst hlive
    cases hb : box tr e with
    | fresh =>
      rw [hb] at hd
      refine ⟨hrec.trans hd.1, ?_⟩
      rcases hst with hst | ⟨_, _, _, _, _, _, -, -, -, -, hst⟩ | hst | hst
      · rw [hst]; exact hd.2
      · rcases statusOfInt_cases hst with h | h <;> rw [h] <;> simp
      · exact absurd hst.1 hd.2.1
      · rw [hst]; simp
    | idle => rw [hb] at hd; exact hrec.trans hd
    | waiting =>
      rw [hb] at hd hstatus
      rcases hstatus (by simp) with h | h
      · exact ⟨hrec.trans hd.1, h.trans hd.2⟩
      · rw [hd.2] at h; cases h
    | full sender value =>
      rw [hb] at hd hstatus
      obtain ⟨h1, h2, h3, h4, h5⟩ := hd
      have htf : w.envTf = (s.envs e).envTf := htf.resolve_right fun hm => by
        rcases hm with hm | hm <;> rw [h2] at hm <;> cases hm
      rcases hstatus (by simp) with h | h
      · exact ⟨hrec.trans h1, h.trans h2, by rw [htf]; exact h3, hfrom.trans h4, hval.trans h5⟩
      · rw [h2] at h; cases h
    | taken sender value =>
      rw [hb] at hd
      exact ⟨hrec.trans hd.1, hfrom.trans hd.2.1, hval.trans hd.2.2⟩

theorem bornEvents_spawned (hl : s.envFreeList = some e) (hf : (s.envs e).envStatus = .free)
    (hlive : (s'.envs e).envStatus ≠ .free) : bornEvents s s' = [.born e] := by
  unfold bornEvents
  rw [hl]
  exact if_pos ⟨hf, hlive⟩

theorem Out.live (hx : Out s s') (h : (s.envs e).envStatus ≠ .free) : (s'.envs e).envStatus ≠ .free := by
  cases hx with
  | monitor => exact h
  | run e' d he hd =>
    rw [popTf_status]
    unfold State.statusAfter
    split
    · simp
    · split
      · simp
      · exact h

theorem sound_born (h : Sound tr) : Sound (bornEvents s s' ++ tr) := by
  unfold bornEvents
  split
  · split
    · exact ⟨trivial, h⟩
    · exact h
  · exact h

/-- The mailboxes before the kernel is left. -/
theorem Delivers.handle (hd : Delivers tr s) (hs : Sound tr) (hf : FreeEnvs s)
    (hu : ∀ k e, (s.cpus k).cpuEnv = some e → s.Marked e) (hset : ∀ e st, a.Sets s e st → box tr e = .fresh)
    (hsp : Split s a evs s₁) (hlive : ∀ e, (s₁.envs e).envStatus ≠ .free → (s'.envs e).envStatus ≠ .free) :
    Delivers (bornEvents s s' ++ (evs ++ tr)) s₁ ∧ Sound (bornEvents s s' ++ (evs ++ tr)) := by
  -- a record that is the same
  have hsame : ∀ e, s₁.envs e = s.envs e → (∀ ev ∈ evs, ev.slot ≠ e) → (s₁.envs e).envStatus ≠ .free →
      (box (bornEvents s s' ++ (evs ++ tr)) e).Holds (s₁.envs e) := by
    intro e heq hev hl
    rw [heq] at hl ⊢
    rw [box_append_other (born_other hl), box_append_other hev]
    exact hd e hl
  cases hsp with
  | mild h =>
    refine ⟨fun e hl => ?_, sound_born hs⟩
    rw [List.nil_append]
    -- a new environment starts with a fresh box, an old one keeps its own
    by_cases hold : (s.envs e).envStatus = .free
    · rcases (h e).live hu hl with hl' | ⟨hfl, hrec, hst⟩
      · exact absurd hold hl'
      · rw [bornEvents_spawned hfl hold (hlive e hl)]
        show (box (.born e :: tr) e).Holds _
        rw [box_born]
        exact ⟨hrec, by rw [hst]; simp, by rw [hst]; simp⟩
    · rw [box_append_other (born_other hold)]
      exact (h e).holds (hd e hold) hl (hset e) fun hfl => hold (hf.head hfl)
  | @receive cur tf dstva _ hrun hcur hother =>
    refine ⟨fun e hl => ?_, sound_born ⟨hd.running hrun, hs⟩⟩
    by_cases he : e = cur
    · subst he
      rw [box_append_other (born_other (by rw [hrun]; simp)), hcur]
      show (box (.receive e tf :: tr) e).Holds _
      rw [box_receive]
      exact ⟨rfl, rfl⟩
    · refine hsame e (hother e he) (fun ev hm => ?_) hl
      cases List.mem_singleton.1 hm
      exact Ne.symm he
  | @send cur dst value newPerm _ hrun hdlive hdrecv hne hdst hcur hother =>
    refine ⟨fun e hl => ?_, sound_born ⟨hd.recving hdlive hdrecv, hs⟩⟩
    by_cases hed : e = dst
    · subst hed
      rw [box_append_other (born_other hdlive), hdst]
      show (box (.send _ e value :: tr) e).Holds _
      rw [box_send]
      exact ⟨rfl, rfl, rfl, rfl, rfl⟩
    by_cases hec : e = cur
    · subst hec
      obtain ⟨tf, hcur⟩ := hcur
      have hold : (s.envs e).envStatus ≠ .free := by rw [hrun]; simp
      have hh := hd e hold
      rw [box_append_other (born_other hold), hcur]
      show (box (.send _ dst value :: tr) e).Holds _
      rw [box_cons_other (Ne.symm hed)]
      -- the sender runs, so nothing waits in its own box
      rcases hd.running hrun with hb | ⟨f, v, hb⟩
      · rw [hb] at hh ⊢; exact hh
      · rw [hb] at hh ⊢; exact hh
    · refine hsame e (hother e hed hec) (fun ev hm => ?_) hl
      cases List.mem_singleton.1 hm
      exact Ne.symm hed

/-- The mailboxes after the kernel is left. -/
theorem Delivers.out (hd : Delivers tr s) (hs : Sound tr) (hx : Out s s') (hl : s.kernelLock = some s.cpunum) :
    Delivers (resumeEvents s.cpunum s' ++ tr) s' ∧ Sound (resumeEvents s.cpunum s' ++ tr) := by
  rcases hx.resume hl with ⟨rfl, hev⟩ | ⟨e, d, he, hdir, rfl, hev⟩
  · rw [hev]; exact ⟨hd, hs⟩
  rw [hev]
  have hst : (s.envs e).envStatus = .runnable ∨ (s.envs e).envStatus = .running := he.imp id And.right
  have hlive : (s.envs e).envStatus ≠ .free := by rcases hst with h | h <;> rw [h] <;> simp
  have hh := hd e hlive
  refine ⟨fun e' hl' => ?_, ?_, hs⟩
  · obtain ⟨runs, cpu, henv⟩ := popTf_envs s e d e'
    rw [henv] at hl' ⊢
    have hl' : s.statusAfter e e' ≠ .free := hl'
    by_cases hee : e' = e
    · subst hee
      show Box.Holds (box (.resume e' _ _ _ :: tr) e') _
      rw [box_resume]
      cases hb : box tr e' with
      | fresh => rw [hb] at hh; exact hh.1
      | idle => rw [hb] at hh; exact hh
      | waiting =>
        rw [hb] at hh
        rcases hst with h | h <;> rw [hh.2] at h <;> cases h
      | full => rw [hb] at hh; exact ⟨hh.1, hh.2.2.2⟩
      | taken => rw [hb] at hh; exact hh
    · show Box.Holds (box (.resume e _ _ _ :: tr) e') _
      rw [box_cons_other (Ne.symm hee)]
      unfold State.statusAfter at hl' ⊢
      rw [if_neg hee] at hl' ⊢
      by_cases hc : s.curenv = some e' ∧ (s.envs e').envStatus = .running
      · rw [if_pos hc]
        have hh' := hd e' (by rw [hc.2]; simp)
        rcases hd.running hc.2 with hb | ⟨f, v, hb⟩
        · rw [hb] at hh' ⊢; exact hh'
        · rw [hb] at hh' ⊢; exact hh'
      · rw [if_neg hc] at hl' ⊢
        exact hd e' hl'
  · -- the environment that goes on is not waiting, and finds its message
    show (box tr e).Admits (.resume e _ _ _)
    cases hb : box tr e with
    | fresh => trivial
    | idle => trivial
    | waiting =>
      rw [hb] at hh
      rcases hst with h | h <;> rw [hh.2] at h <;> cases h
    | full => rw [hb] at hh; exact ⟨hh.2.2.1, hh.2.2.2.2, hh.2.2.2.1⟩
    | taken => rw [hb] at hh; exact ⟨hh.2.2, hh.2.1⟩

theorem Delivers.step (hd : Delivers tr s) (hs : Sound tr) (h : Apart s) (hg : Gentle tr s a) (hr : Recving tr s)
    (hstep : Step s a s') : Delivers (stepEvents s a s' ++ tr) s' ∧ Sound (stepEvents s a s' ++ tr) := by
  have hu := h.unlocked hstep.unlocked
  obtain ⟨s₁, hsp, hx, hcpu, hl⟩ := hstep.split h fun k e he => hr.marked (hu k e he)
  have hset : ∀ e st, a.Sets s e st → box tr e = .fresh := by
    rintro e st ⟨k, tf, faultVa, cur, envid, status, rfl, htf, hcur, hres, -⟩
    exact (hg htf cur hcur e hres).fresh hs
  obtain ⟨hd₁, hs₁⟩ := hd.handle hs h.freeEnvs hu hset hsp fun e => hx.live
  have hout := hd₁.out hs₁ hx hl
  rw [hcpu] at hout
  unfold stepEvents
  rw [List.append_assoc, List.append_assoc]
  exact hout

theorem Traced.delivers (h₀ : Fresh s₀) (h : Traced Gentle s₀ tr s) : (Apart s ∧ Recving tr s) ∧ Delivers tr s ∧ Sound tr := by
  induction h with
  | refl =>
    refine ⟨⟨h₀.apart, fun e _ hrecv => ?_⟩, fun e _ => ⟨h₀.recving e, ?_, ?_⟩, trivial⟩
    · rw [h₀.recving] at hrecv
      cases hrecv
    · rcases h₀.status e with h | h <;> rw [h] <;> simp
    · rcases h₀.status e with h | h <;> rw [h] <;> simp
  | step h hg hs ih =>
    obtain ⟨⟨ha, hr⟩, hd, hsound⟩ := ih
    have ht := hg.tidy hd hsound (ha.unlocked hs.unlocked)
    exact ⟨⟨ha.step (ht.orderly ha hr hs.unlocked) hs, hr.step ha ht hs⟩, hd.step hsound ha hg hr hs⟩

/-- A message that nothing has touched since is in its receiver's record. -/
theorem Delivers.kept {newer older : List IpcEvent} {sender value : Word} {r : Slot}
    (hd : Delivers (newer ++ .send sender r value :: older) s) (hs : Sound (newer ++ .send sender r value :: older))
    (hk : ∀ ev ∈ newer, ev.Keeps r) (hlive : (s.envs r).envStatus ≠ .free) :
    (s.envs r).envIpcFrom = sender ∧ (s.envs r).envIpcValue = value := by
  have hh := hd r hlive
  rcases since_send hs hk with hb | hb
  · rw [hb] at hh; exact hh.2.2.2
  · rw [hb] at hh; exact hh.2

/-- IPC messages are delivered exactly once, and a message stays in place until the next receive. -/
theorem ipc_exactly_once (h₀ : Fresh s₀) (h : Traced Gentle s₀ tr s) : ExactlyOnce tr ∧
    ∀ newer older sender r value, tr = newer ++ .send sender r value :: older → (∀ ev ∈ newer, ev.Keeps r) →
      (s.envs r).envStatus ≠ .free → (s.envs r).envIpcFrom = sender ∧ (s.envs r).envIpcValue = value := by
  obtain ⟨-, hd, hs⟩ := h.delivers h₀
  refine ⟨hs.exactlyOnce, ?_⟩
  rintro newer older sender r value rfl hk hlive
  exact hd.kept hs hk hlive

/-- The parent has sent 42 to the waiting child. -/
def sent : State := childWaits.after 0 0 128 (fun s => s.setEnv 1 (ipcReceived (s.envs 0) 42#32 (s.envs 1))) 0

theorem run_ipcTrySend {envid srcva perm : Word} (hcur : s.curenv = some cur) (hr : s.resolve cur envid false = some e)
    (hrecv : (s.envs e).envIpcRecving = true) (hfrom : (s.envs e).envIpcFrom = 0#32) (hva : ¬ srcva < utop) :
    (sysIpcTrySend envid value srcva perm).run s = .ok 0 (s.setEnv e (ipcReceived (s.envs cur) value (s.envs e))) := by
  unfold sysIpcTrySend
  rw [run_bind_ok (run_envid2env hcur false), hr]
  dsimp only
  rw [if_neg (by decide), run_bind_ok (run_deref_some e), run_bind_ok (run_env e),
    if_neg (by rw [hrecv, hfrom]; simp), if_neg hva]
  unfold ipcDeliver
  rw [run_bind_ok (EStateM.run_get s), hcur, run_bind_ok (run_deref_some cur), run_bind_ok (run_env cur),
    run_bind_ok (run_modifyEnv ..)]
  rfl

/-- The parent sends a value to the waiting child. -/
theorem send_step {srcva perm : Word} (hva : ¬ srcva < utop) (h : s.ParentRuns) (hrecv : (s.envs 1).envIpcRecving = true)
    (hfrom : (s.envs 1).envIpcFrom = 0#32) :
    Step s (.trap 0 callTf 0#32 (.ipcTrySend 4097#32 value srcva perm))
      (s.after 0 0 128 (fun t => t.setEnv 1 (ipcReceived (t.envs 0) value (t.envs 1))) 0) := by
  obtain ⟨hl, hk, hw, h0, hd, hr⟩ := h
  let t : State := (s.on 0).saved 0 callTf
  refine step_call (t := t.setEnv 1 (ipcReceived (t.envs 0) value (t.envs 1))) hl hk hw (by rw [h0]; decide) rfl ?_
    (same_setEnv ..) h0 hd
  exact run_ipcTrySend (saved_curenv callTf hk) (by rw [saved_resolve]; exact hr false) hrecv hfrom hva

theorem sent_step : Step childWaits (.trap 0 callTf 0#32 (.ipcTrySend 4097#32 42#32 0xffffffff#32 0#32)) sent :=
  send_step (by decide) (by decide +kernel) (by decide +kernel) (by decide +kernel)

theorem childTrace_neverRun : NeverRun childTrace 1 := by
  intro newer older eax value sender htr
  have hmem : .resume 1 eax value sender ∈ childTrace := by rw [htr]; simp
  exfalso
  rcases List.mem_append.1 hmem with h | h
  · cases show some (0 : Slot) = some 1 from resume_mem h
  · cases show some (0 : Slot) = some 1 from resume_mem h

theorem childMade_gentle : Gentle childTrace childMade (.trap 0 callTf 0#32 (.envSetStatus 4097#32 2#32)) := by
  intro _ cur hcur e he
  cases show some (0 : Slot) = some cur from hcur
  cases show some (1 : Slot) = some e from he
  exact childTrace_neverRun

theorem ipc_exactly_once_sent : ∃ tr, Traced Gentle firstEnv tr sent ∧ ExactlyOnce tr := by
  have hstart : ∀ tr, Gentle tr firstEnv (.start 0) := fun _ => trivial
  have hfork : ∀ tr, Gentle tr soloRun (.trap 0 callTf 0#32 .exofork) := fun _ _ _ _ => trivial
  have hyield : ∀ tr, Gentle tr childReady (.trap 0 callTf 0#32 .yield) := fun _ _ _ _ => trivial
  have hrecv : ∀ tr, Gentle tr childRuns (.trap 0 callTf 0#32 (.ipcRecv 0xffffffff#32)) := fun _ _ _ _ => trivial
  obtain ⟨tr, h⟩ := childWaits_traced hstart hfork childMade_gentle hyield hrecv
  have hsend : Gentle tr childWaits (.trap 0 callTf 0#32 (.ipcTrySend 4097#32 42#32 0xffffffff#32 0#32)) := fun _ _ _ => trivial
  have hsent := h.step hsend sent_step
  exact ⟨_, hsent, (ipc_exactly_once firstEnv_fresh hsent).1⟩

end Jos
