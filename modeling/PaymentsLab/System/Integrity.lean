import PaymentsLab.System.Payments
import PaymentsLab.Processor.WorkerInvariant
import PaymentsLab.Api.ReviewInvariant
import PaymentsLab.Api.CreateInvariant

/-!
# Integrity of the whole system

`Payments.Integrity` joins the integrity of the tables with the invariant of every session. It
holds in every state any run can reach: a session keeps its own invariant by its program, and the
invariants of the others because all it does is a sequence of statements.
-/

namespace PaymentsLab

open Foundation

/-- The invariant of a session. -/
def Session.Inv (cfg : Processor.Settings) (w : World) : (t : Session) → t.Local → Prop
  | .worker n, l => Processor.Worker.Inv cfg w (.worker n) l
  | .review n, c => Review.Call.Inv w (.review n) c
  | .create n, r => Create.Run.Inv w (.create n) r
  | .environment, _ => True

namespace Session

variable {cfg : Processor.Settings} {w w' : World}

theorem Inv.stable {t : Session} {l : t.Local} (h : Inv cfg w t l) (hr : w.Rely t w') :
    Inv cfg w' t l := by
  cases t with
  | worker n => exact Processor.Worker.Inv.stable h hr
  | review n => exact Review.Call.Inv.stable h hr
  | create n => exact Create.Run.Inv.stable h hr
  | environment => trivial

/-- Every step of a session is a sequence of statements and keeps its invariant. -/
theorem Inv.next {t : Session} {l l' : t.Local} {a : t.Act} (h : Inv cfg w t l) (hw : w.WF)
    (hstep : Session.step cfg t w l a = some (w', l')) : Statements t w w' ∧ Inv cfg w' t l' := by
  cases t with
  | worker n => exact Processor.Worker.Inv.next hw h (Processor.Worker.next_of_step hstep)
  | review n => exact Review.Call.Inv.next hw h (Review.Call.next_of_step hstep)
  | create n => exact Create.Run.Inv.next h (Create.Run.next_of_step hstep)
  | environment =>
    cases a with
    | expireGate key =>
      cases hstep
      exact ⟨(Statement.outside w.idempotency _ w.confirms w.published).single, trivial⟩

end Session

namespace Payments

variable {cfg : Processor.Settings}

/-- Integrity of the tables, and the invariant of every session. -/
structure Integrity (s : State cfg) : Prop where
  wf : s.world.WF
  inv : ∀ t, Session.Inv cfg s.world t (s.proc t)

namespace Integrity

variable {s s' : State cfg}

theorem initial (h : Initial s) : Integrity s where
  wf := by
    rw [h.world]
    exact .empty
  inv t := by
    have hfresh (t : Session) : s.world.Clean t := by
      rw [h.world]
      exact ⟨rfl, rfl⟩
    cases t with
    | worker n => exact Processor.Worker.Inv.idle (hfresh _) (h.worker n) (h.batch n)
    | review n => exact Review.Call.Inv.start (hfresh _) (h.review n)
    | create n => exact Create.Run.Inv.start (hfresh _) (h.create n)
    | environment => trivial

/-- The statements of a step, and integrity after it. -/
theorem next (h : Integrity s) {i : Session} {a : i.Act} (hstep : s.step i a = some s') :
    Statements i s.world s'.world ∧ Integrity s' := by
  have hown := (h.inv i).next h.wf (System.State.step_self hstep)
  refine ⟨hown.1, hown.1.wf h.wf, ?_⟩
  exact System.State.forall_step (L := fun t w l => Session.Inv cfg w t l) hstep h.inv
    (fun _ => hown.2) fun j hj hinv => Session.Inv.stable hinv (hown.1.rely h.wf hj)

end Integrity

/-- Integrity holds in every state a run reaches. -/
theorem integrity_of_reaches {s s' : State cfg} {good : (payments cfg).Guard}
    (h : (payments cfg).Reaches good s s') (hs : Integrity s) : Integrity s' :=
  h.invariant (fun hi _ hstep => (hi.next hstep).2) hs

end Payments

end PaymentsLab
