import PaymentsLab.Foundation.Sequential

/-!
# Programs over two handlers

`Program.Similar` relates programs that issue the same commands and go on alike where the replies
are related. Where a handler simulates another one, reply by reply, any interleaving of programs
over the second is matched by one of similar programs over the first, with the same commands and the
same outcomes (`Handler.Simulates.of_reaches`).
-/

namespace Foundation

variable {C : Type} {R : C → Type} {ε α β α' β' : Type}

namespace Program

/-- The programs issue the same commands, all of which are allowed, and go on alike on related
replies. They raise the same exceptions, and what they return is related. -/
inductive Similar (allows : C → Prop) (replies : (c : C) → R c → R c → Prop) (Q : α → α' → Prop) :
    Program C R ε α → Program C R ε α' → Prop
  | ret {a : α} {a' : α'} (h : Q a a') : Similar allows replies Q (.ret a) (.ret a')
  | raise (e : ε) : Similar allows replies Q (.raise e) (.raise e)
  | call {c : C} {next : R c → Program C R ε α} {next' : R c → Program C R ε α'} (hc : allows c)
      (h : ∀ r r', replies c r r' → Similar allows replies Q (next r) (next' r')) :
      Similar allows replies Q (.call c next) (.call c next')

namespace Similar

variable {allows : C → Prop} {replies : (c : C) → R c → R c → Prop} {Q : α → α' → Prop}
  {Q' : β → β' → Prop} {p : Program C R ε α} {p' : Program C R ε α'}

theorem pure {a : α} {a' : α'} (h : Q a a') :
    Similar allows replies Q (Pure.pure a : Program C R ε α) (Pure.pure a') :=
  .ret h

theorem throw (e : ε) : Similar allows replies Q (MonadExcept.throw e : Program C R ε α)
    (MonadExcept.throw e : Program C R ε α') :=
  .raise e

theorem issue {c : C} (hc : allows c) : Similar allows replies (replies c)
    (Program.issue c : Program C R ε (R c)) (Program.issue c) :=
  .call hc fun _ _ h => .ret h

/-- Rule of sequencing. -/
theorem bind {f : α → Program C R ε β} {f' : α' → Program C R ε β'}
    (h : Similar allows replies Q p p')
    (hf : ∀ a a', Q a a' → Similar allows replies Q' (f a) (f' a')) :
    Similar allows replies Q' (p >>= f) (p' >>= f') := by
  induction h with
  | ret ha => exact hf _ _ ha
  | raise e => exact .raise e
  | call hc _ ih => exact .call hc ih

/-- Rule of `try`. -/
theorem tryCatch {handler : ε → Program C R ε α} {handler' : ε → Program C R ε α'}
    (h : Similar allows replies Q p p')
    (hh : ∀ e, Similar allows replies Q (handler e) (handler' e)) :
    Similar allows replies Q (MonadExcept.tryCatch p handler)
      (MonadExcept.tryCatch p' handler') := by
  induction h with
  | ret ha => exact .ret ha
  | raise e => exact hh e
  | call hc _ ih => exact .call hc ih

theorem mono {Q'' : α → α' → Prop} (h : Similar allows replies Q p p')
    (hQ : ∀ a a', Q a a' → Q'' a a') : Similar allows replies Q'' p p' := by
  induction h with
  | ret ha => exact .ret (hQ _ _ ha)
  | raise e => exact .raise e
  | call hc _ ih => exact .call hc ih

/-- A program is similar to itself if it only issues commands with one reply. -/
theorem of_issues {P : C → Prop} {p : Program C R ε α} (h : p.Issues P)
    (hP : ∀ c, P c → allows c ∧ ∀ r r', replies c r r' → r = r') :
    Similar allows replies Eq p p := by
  induction p with
  | ret a => exact .ret rfl
  | raise e => exact .raise e
  | call c next ih =>
    refine .call (hP c h.1).1 fun r r' hr => ?_
    obtain rfl := (hP c h.1).2 r r' hr
    exact ih r (h.2 r)

end Similar

end Program

namespace Process

/-- What a process ends with. -/
def outcome? (p : Process C R ε α) : Option (Except ε α) :=
  match p.rest with
  | .ret a => some (.ok a)
  | .raise e => some (.error e)
  | .call _ _ => none

/-- The commands a process has issued, the last one first. -/
def commands (p : Process C R ε α) : List C :=
  p.history.map (·.1)

/-- The processes have issued the same commands, and go on alike. -/
structure Similar (allows : C → Prop) (replies : (c : C) → R c → R c → Prop)
    (p p' : Process C R ε α) : Prop where
  commands : p.commands = p'.commands
  rest : Program.Similar allows replies Eq p.rest p'.rest

theorem Similar.outcome? {allows : C → Prop} {replies : (c : C) → R c → R c → Prop}
    {p p' : Process C R ε α} (h : Similar allows replies p p') : p.outcome? = p'.outcome? := by
  have hrest := h.rest
  unfold Process.outcome?
  cases hp : p.rest <;> cases hp' : p'.rest <;> rw [hp, hp'] at hrest <;> cases hrest
  · next heq => rw [heq]
  · rfl

end Process

namespace Handler

variable {W W' I ι : Type} [DecidableEq ι] {H : Handler C R W I} {H' : Handler C R W' I}
  {worlds : W → W' → Prop} {allows : C → Prop} {replies : (c : C) → R c → R c → Prop}
  {good : I → W' → C → Prop}

/-- Steps of the second handler that are good are steps of the first, with related replies. -/
def Simulates (H : Handler C R W I) (H' : Handler C R W' I) (worlds : W → W' → Prop)
    (allows : C → Prop) (replies : (c : C) → R c → R c → Prop) (good : I → W' → C → Prop) : Prop :=
  ∀ i w w' c, worlds w w' → allows c → good i w' c →
    replies c (H.exec i w c).1 (H'.exec i w' c).1 ∧ worlds (H.exec i w c).2 (H'.exec i w' c).2

/-- Every step is a good one. -/
def goodSteps (H' : Handler C R W' I) (good : I → W' → C → Prop) : (H'.system ι ε α).Guard :=
  fun _ w' p i => ∀ c ∈ Process.next? p, good i w' c

instance (H' : Handler C R W' I) (good : I → W' → C → Prop)
    [decide : ∀ i w' c, Decidable (good i w' c)] (n : ι) (w' : W')
    (p : (H'.system ι ε α).Local n) (i : (H'.system ι ε α).Act n) :
    Decidable (goodSteps H' good n w' p i) :=
  have := decide i w'
  Option.decidableForallMem (Process.next? p)

/-- The states of both systems are related: the worlds, and process by process. -/
structure Matches (worlds : W → W' → Prop) (allows : C → Prop)
    (replies : (c : C) → R c → R c → Prop) (s : (H.system ι ε α).State)
    (s' : (H'.system ι ε α).State) : Prop where
  worlds : worlds s.world s'.world
  procs : ∀ n, Process.Similar allows replies (s.proc n) (s'.proc n)

/-- A good step is matched by one of the first system. -/
theorem Simulates.next (h : Simulates H H' worlds allows replies good)
    {s : (H.system ι ε α).State} {s₁' s₂' : (H'.system ι ε α).State} {n : ι} {i : I}
    (hs : Matches worlds allows replies s s₁')
    (hgood : goodSteps H' good n s₁'.world (s₁'.proc n) i) (hstep : s₁'.step n i = some s₂') :
    ∃ s₂, s.step n i = some s₂ ∧ Matches worlds allows replies s₂ s₂' := by
  obtain ⟨c, next', hrest', hworld', hproc'⟩ :=
    Process.step_eq_some (H := H') (System.State.step_self hstep)
  have hsimilar := hs.procs n
  have hrest := hsimilar.rest
  rw [hrest'] at hrest
  generalize hp : Process.rest (s.proc n) = p at hrest
  cases hrest with
  | call hc hnext =>
    next next =>
    have hallowed : good i s₁'.world c := by
      refine hgood c ?_
      unfold Process.next?
      rw [hrest']
      rfl
    obtain ⟨hreply, hworlds⟩ := h i s.world s₁'.world c hs.worlds hc hallowed
    let l : Process C R ε α := ⟨⟨c, (H.exec i s.world c).1⟩ :: Process.history (s.proc n),
      next (H.exec i s.world c).1⟩
    have hmine : H.step s.world (s.proc n) i = some ((H.exec i s.world c).2, l) := by
      unfold Handler.step
      rw [hp]
    obtain ⟨s₂, hstep₂⟩ : ∃ s₂, s.step n i = some s₂ :=
      ⟨_, System.State.step_eq_some.2 ⟨_, _, hmine, rfl⟩⟩
    have hown : some (s₂.world, s₂.proc n) = some ((H.exec i s.world c).2, l) :=
      (System.State.step_self hstep₂).symm.trans hmine
    obtain ⟨hworld, hproc⟩ := Prod.mk.inj (Option.some.inj hown)
    refine ⟨s₂, hstep₂, ?_, fun m => ?_⟩
    · rw [hworld, hworld']
      exact hworlds
    · by_cases hm : m = n
      · subst hm
        rw [hproc, hproc']
        exact ⟨congrArg (c :: ·) hsimilar.commands, hnext _ _ hreply⟩
      · rw [System.State.step_proc_ne hstep₂ hm, System.State.step_proc_ne hstep hm]
        exact hs.procs m

/-- Any interleaving over the second handler is matched by one over the first. -/
theorem Simulates.of_reaches (h : Simulates H H' worlds allows replies good)
    {s : (H.system ι ε α).State} {s₁' s₂' : (H'.system ι ε α).State}
    (hs : Matches worlds allows replies s s₁')
    (hrun : (H'.system ι ε α).Reaches (goodSteps H' good) s₁' s₂') :
    ∃ s₂, (H.system ι ε α).Reaches (H.system ι ε α).anyStep s s₂ ∧
      Matches worlds allows replies s₂ s₂' := by
  induction hrun with
  | refl => exact ⟨s, .refl, hs⟩
  | step _ hgood hstep ih =>
    obtain ⟨s₂, hreaches, hmatches⟩ := ih
    obtain ⟨s₃, hstep, hmatches⟩ := h.next hmatches hgood hstep
    exact ⟨s₃, .step hreaches trivial hstep, hmatches⟩

end Handler

end Foundation
