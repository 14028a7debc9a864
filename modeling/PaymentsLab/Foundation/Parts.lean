import PaymentsLab.Foundation.Notes

/-!
# Parts of programs

What a program does is said of the parts it is made of. `Program.Within` bounds the commands and the
outcome of a part, whatever has been done before it, with a rule for each way to put parts together.
`Program.Ends` follows a part through the replies it has had: where the program obeys, the end of
the part meets the postcondition (`Obeys.of_ends`). `Program.Leads` and `Program.Passes` tell what
is left of a program after some admitted replies and after any of them, for a program that is cut
into steps. `Program.Visits` finds the parts that a run comes to, with the world and the inputs they
begin with: a condition on the steps of the run is one on the steps of the parts (`Meets.visits`),
and notes change nothing of where they are (`Visits.noting`).
-/

namespace Foundation

namespace Program

variable {C : Type} {R : C → Type} {ε α β γ W I G : Type}

/-! ## Commands and outcomes -/

section Within

variable {admits : (c : C) → R c → Prop} {P : C → Prop} {Q : Except ε α → Prop}
  {Q' : Except ε β → Prop} {p : Program C R ε α}

/-- Whatever admitted replies it gets, the program issues commands of `P` and has an outcome of
`Q`. -/
def Within (admits : (c : C) → R c → Prop) (P : C → Prop) (Q : Except ε α → Prop)
    (p : Program C R ε α) : Prop :=
  ∀ h, p.Obeys admits (fun _ c => P c) (fun _ o => Q o) h

theorem within_pure {a : α} (h : Q (.ok a)) : (pure a : Program C R ε α).Within admits P Q :=
  fun _ => h

theorem within_throw {e : ε} (h : Q (.error e)) :
    (throw e : Program C R ε α).Within admits P Q :=
  fun _ => h

theorem within_issue {c : C} {Q : Except ε (R c) → Prop} (hc : P c)
    (hreply : ∀ r, admits c r → Q (.ok r)) : (issue c : Program C R ε (R c)).Within admits P Q :=
  fun _ => ⟨hc, hreply⟩

theorem within_true : p.Within admits (fun _ => True) fun _ => True := by
  intro h
  induction p generalizing h with
  | ret a => exact trivial
  | raise e => exact trivial
  | call c next ih => exact ⟨trivial, fun r _ => ih r _⟩

theorem Within.mono {Q₁ : Except ε α → Prop} (hp : p.Within admits P Q₁) (hQ : ∀ o, Q₁ o → Q o) :
    p.Within admits P Q :=
  fun h => (hp h).mono (fun _ _ => id) fun _ => hQ

theorem Within.bind {f : α → Program C R ε β} (hp : p.Within admits P Q)
    (hreturn : ∀ a, Q (.ok a) → (f a).Within admits P Q')
    (hraise : ∀ e, Q (.error e) → Q' (.error e)) : (p >>= f).Within admits P Q' := by
  refine fun h => obeys_bind.2 ((hp h).mono (fun _ _ => id) fun h o ho => ?_)
  cases o with
  | ok a => exact hreturn a ho h
  | error e => exact hraise e ho

theorem Within.tryCatch {handler : ε → Program C R ε α} {Q₁ : Except ε α → Prop}
    (hp : p.Within admits P Q₁) (hreturn : ∀ a, Q₁ (.ok a) → Q (.ok a))
    (hraise : ∀ e, Q₁ (.error e) → (handler e).Within admits P Q) :
    (MonadExcept.tryCatch p handler).Within admits P Q := by
  refine fun h => obeys_tryCatch.2 ((hp h).mono (fun _ _ => id) fun h o ho => ?_)
  cases o with
  | ok a => exact hreturn a ho
  | error e => exact hraise e ho h

end Within

/-! ## The end of a part -/

/-- After the history `h`, replies lead the program to the outcome `o` with the history `h'`. -/
inductive Ends : Program C R ε α → History C R → Except ε α → History C R → Prop
  | ret {a : α} {h : History C R} : Ends (.ret a) h (.ok a) h
  | raise {e : ε} {h : History C R} : Ends (.raise e) h (.error e) h
  | call {c : C} {next : R c → Program C R ε α} {r : R c} {h h' : History C R} {o : Except ε α}
      (rest : Ends (next r) (⟨c, r⟩ :: h) o h') : Ends (.call c next) h o h'

section Ends

variable {p : Program C R ε α} {h h' : History C R} {o : Except ε α}

/-- What a program has done stays done. -/
theorem Ends.suffix (hp : p.Ends h o h') : h <:+ h' := by
  induction hp with
  | ret | raise => exact List.suffix_rfl
  | call _ ih => exact (List.suffix_cons _ _).trans ih

/-- The end of a program that obeys meets the postcondition, where the replies are admitted. -/
theorem Obeys.of_ends {admits : (c : C) → R c → Prop} {allows : History C R → C → Prop}
    {post : History C R → Except ε α → Prop} (hobeys : p.Obeys admits allows post h)
    (hp : p.Ends h o h') (hadmits : ∀ e ∈ h', admits e.1 e.2) : post h' o := by
  induction hp with
  | ret | raise => exact hobeys
  | call rest ih =>
    have hreply := hadmits _ (rest.suffix.subset List.mem_cons_self)
    exact ih (hobeys.2 _ hreply) hadmits

end Ends

/-! ## What is left of a program -/

/-- Some admitted replies lead from the program to `q`. -/
inductive Leads (admits : (c : C) → R c → Prop) (q : Program C R ε α) : Program C R ε α → Prop
  | refl : Leads admits q q
  | reply {c : C} {next : R c → Program C R ε α} (r : R c) (admitted : admits c r)
      (leads : Leads admits q (next r)) : Leads admits q (.call c next)

/-- Whatever admitted replies it gets, the program comes to one of `Q`. -/
inductive Passes (admits : (c : C) → R c → Prop) (Q : Program C R ε α → Prop) :
    Program C R ε α → Prop
  | here {p : Program C R ε α} (h : Q p) : Passes admits Q p
  | call {c : C} {next : R c → Program C R ε α}
      (passes : ∀ r, admits c r → Passes admits Q (next r)) : Passes admits Q (.call c next)

section Leads

variable {admits : (c : C) → R c → Prop} {p q : Program C R ε α} {Q : Program C R ε β → Prop}
  {f : α → Program C R ε β}

theorem Leads.of_eq (h : q = p) : Leads admits q p :=
  h ▸ .refl

theorem Leads.trans {r : Program C R ε α} (h : Leads admits q p) (h' : Leads admits r q) :
    Leads admits r p := by
  induction h with
  | refl => exact h'
  | reply reply admitted _ ih => exact .reply reply admitted ih

/-- What a part leads to, with what follows the part. -/
theorem Leads.bind (h : Leads admits q p) : Leads admits (q >>= f) (p >>= f) := by
  induction h with
  | refl => exact .refl
  | reply reply admitted _ ih => exact .reply reply admitted ih

/-- A part that returns leads to what follows it. -/
theorem Leads.bind_pure {a : α} {q : Program C R ε β} (h : Leads admits (pure a) p)
    (h' : Leads admits q (f a)) : Leads admits q (p >>= f) :=
  h.bind.trans h'

/-- A part is passed where what follows it is, and where what it raises is of `Q`. -/
theorem Passes.bind {S : Except ε α → Prop} (hp : p.Within admits (fun _ => True) S)
    (hreturn : ∀ a, S (.ok a) → (f a).Passes admits Q)
    (hraise : ∀ e, S (.error e) → Q (throw e)) : (p >>= f).Passes admits Q := by
  obtain ⟨h, hobeys⟩ : ∃ h, p.Obeys admits (fun _ _ => True) (fun _ o => S o) h := ⟨[], hp []⟩
  clear hp
  induction p generalizing h with
  | ret a => exact hreturn a hobeys
  | raise e => exact .here (hraise e hobeys)
  | call c next ih => exact .call fun r hr => ih r _ (hobeys.2 r hr)

end Leads

/-! ## The parts of a run -/

/-- The run of a program from a world and its inputs comes to a part of it, with the world and the
inputs that are there then. -/
inductive Visits (H : Handler C R W I) : {α β : Type} → Program C R ε α → W → (Nat → I) →
    Program C R ε β → W → (Nat → I) → Prop
  | here {α : Type} {p : Program C R ε α} {w : W} {is : Nat → I} : Visits H p w is p w is
  | first {α β γ : Type} {p : Program C R ε α} {f : α → Program C R ε β} {q : Program C R ε γ}
      {w v : W} {is js : Nat → I} (visits : Visits H p w is q v js) :
      Visits H (p >>= f) w is q v js
  | next {α β γ : Type} {p : Program C R ε α} {f : α → Program C R ε β} {q : Program C R ε γ}
      {w v : W} {is js : Nat → I} {a : α} (returns : (p.run H w is).outcome = .ok a)
      (visits : Visits H (f a) (p.run H w is).world (p.run H w is).inputs q v js) :
      Visits H (p >>= f) w is q v js
  | body {α γ : Type} {p : Program C R ε α} {f : ε → Program C R ε α} {q : Program C R ε γ}
      {w v : W} {is js : Nat → I} (visits : Visits H p w is q v js) :
      Visits H (MonadExcept.tryCatch p f) w is q v js
  | handler {α γ : Type} {p : Program C R ε α} {f : ε → Program C R ε α} {q : Program C R ε γ}
      {w v : W} {is js : Nat → I} {e : ε} (raises : (p.run H w is).outcome = .error e)
      (visits : Visits H (f e) (p.run H w is).world (p.run H w is).inputs q v js) :
      Visits H (MonadExcept.tryCatch p f) w is q v js

section Visits

variable {H : Handler C R W I} {good : I → W → C → Prop} {p : Program C R ε α}
  {q : Program C R ε β} {w v : W} {is js : Nat → I}

/-- The parts of a run that meets the condition, with its handlers. -/
theorem Meets.tryCatch {f : ε → Program C R ε α}
    (h : (MonadExcept.tryCatch p f).Meets H good w is) :
    p.Meets H good w is ∧ ∀ e, (p.run H w is).outcome = .error e →
      (f e).Meets H good (p.run H w is).world (p.run H w is).inputs := by
  induction p generalizing w is with
  | ret a =>
    refine ⟨trivial, fun e he => ?_⟩
    cases he
  | raise e =>
    refine ⟨trivial, fun e' he => ?_⟩
    cases he
    exact h
  | call c next ih => exact ⟨⟨h.1, (ih _ h.2).1⟩, (ih _ h.2).2⟩

/-- The steps of a part are steps of the run. -/
theorem Meets.visits (hvisits : Visits H p w is q v js) (hp : p.Meets H good w is) :
    q.Meets H good v js := by
  induction hvisits with
  | here => exact hp
  | first _ ih => exact ih hp.bind.1
  | next returns _ ih => exact ih (hp.bind.2 _ returns)
  | body _ ih => exact ih hp.tryCatch.1
  | handler raises _ ih => exact ih (hp.tryCatch.2 _ raises)

/-- A run with notes comes to the same parts. -/
theorem Visits.noting {note : G → I → W → C → G} (hvisits : Visits H p w is q v js) (g : G) :
    ∃ g', Visits (H.noting note) p (w, g) is q (v, g') js := by
  induction hvisits generalizing g with
  | here => exact ⟨g, .here⟩
  | first _ ih =>
    obtain ⟨g', hnoted⟩ := ih g
    exact ⟨g', .first hnoted⟩
  | body _ ih =>
    obtain ⟨g', hnoted⟩ := ih g
    exact ⟨g', .body hnoted⟩
  | @next _ _ _ p f q w v is js a returns _ ih =>
    obtain ⟨houtcome, hworld, hinputs⟩ := @run_noting _ _ _ _ _ _ _ H note p w g is
    obtain ⟨g', hnoted⟩ := ih (p.run (H.noting note) (w, g) is).world.2
    refine ⟨g', .next (houtcome.trans returns) ?_⟩
    rw [hinputs]
    rw [← hworld] at hnoted
    exact hnoted
  | @handler _ _ p f q w v is js e raises _ ih =>
    obtain ⟨houtcome, hworld, hinputs⟩ := @run_noting _ _ _ _ _ _ _ H note p w g is
    obtain ⟨g', hnoted⟩ := ih (p.run (H.noting note) (w, g) is).world.2
    refine ⟨g', .handler (houtcome.trans raises) ?_⟩
    rw [hinputs]
    rw [← hworld] at hnoted
    exact hnoted

end Visits

end Program

end Foundation
