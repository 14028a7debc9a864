import PaymentsLab.Foundation.Ensures

/-!
# Notes on runs

`Handler.noting` takes notes of the steps it executes. Notes change no run (`run_noting`), and a
condition may read them: so a condition on a run can depend on what has happened earlier in it. What
a program ensures on a world, it ensures with notes that none of its commands changes
(`Ensures.noting`).

`flagging` notes whether every step so far has had a property. A program that leaves the flag up
whenever its steps meet a condition has the property at every such step (`Ensures.always`).
-/

namespace Foundation

variable {C : Type} {R : C → Type} {ε α W I G : Type}

/-- The handler, with a note on every step. -/
def Handler.noting (H : Handler C R W I) (note : G → I → W → C → G) : Handler C R (W × G) I where
  exec i v c := ((H.exec i v.1 c).1, (H.exec i v.1 c).2, note v.2 i v.1 c)

namespace Program

section Noting

variable {H : Handler C R W I} {note : G → I → W → C → G} {p : Program C R ε α} {w : W} {g : G}
  {is : Nat → I} {good : I → W → C → Prop} {post : Except ε α → W → Prop}

/-- Notes change no run. -/
theorem run_noting :
    (p.run (H.noting note) (w, g) is).outcome = (p.run H w is).outcome ∧
      (p.run (H.noting note) (w, g) is).world.1 = (p.run H w is).world ∧
      (p.run (H.noting note) (w, g) is).inputs = (p.run H w is).inputs := by
  induction p generalizing w g is with
  | ret a => exact ⟨rfl, rfl, rfl⟩
  | raise e => exact ⟨rfl, rfl, rfl⟩
  | call c next ih => exact ih _

/-- A condition that reads no notes. -/
theorem ensures_noting_iff :
    p.Ensures (H.noting note) (fun i v c => good i v.1 c) (fun o v => post o v.1) (w, g) ↔
      p.Ensures H good post w := by
  induction p generalizing w g with
  | ret a => exact Iff.rfl
  | raise e => exact Iff.rfl
  | call c next ih => exact forall_congr' fun i => imp_congr_right fun _ => ih _

/-- Commands that change no note. -/
theorem Ensures.noting {P : C → Prop} {good' : I → W × G → C → Prop} (hp : p.Ensures H good post w)
    (hissues : p.Issues P) (hnote : ∀ i w c, P c → note g i w c = g)
    (hgood : ∀ i w c, good' i (w, g) c → good i w c) :
    p.Ensures (H.noting note) good' (fun o v => post o v.1 ∧ v.2 = g) (w, g) := by
  induction p generalizing w with
  | ret a => exact ⟨hp, rfl⟩
  | raise e => exact ⟨hp, rfl⟩
  | call c next ih =>
    intro i hi
    have hkept : (H.noting note).exec i (w, g) c = ((H.exec i w c).1, (H.exec i w c).2, g) := by
      simp only [Handler.noting, hnote i w c hissues.1]
    rw [hkept]
    exact ih _ (hp i (hgood i w c hi)) (hissues.2 _)

end Noting

/-! ## A property of every step -/

/-- The notes, and whether every step has had the property. -/
def flagging (note : G → I → W → C → G) (prop : I → W × G → C → Prop) (g : G × Prop) (i : I) (w : W)
    (c : C) : G × Prop :=
  (note g.1 i w c, g.2 ∧ prop i (w, g.1) c)

section Flagging

variable {H : Handler C R W I} {note : G → I → W → C → G} {prop good : I → W × G → C → Prop}
  {p : Program C R ε α} {w : W} {g : G} {ok : Prop} {is : Nat → I}

theorem meets_flagging_iff :
    p.Meets (H.noting (flagging note prop)) (fun i v c => good i (v.1, v.2.1) c) (w, g, ok) is ↔
      p.Meets (H.noting note) good (w, g) is := by
  induction p generalizing w g ok is with
  | ret a => exact Iff.rfl
  | raise e => exact Iff.rfl
  | call c next ih => exact and_congr_right fun _ => ih _

/-- A flag that is up at the end has been up before. -/
theorem flag_of_run (h : (p.run (H.noting (flagging note prop)) (w, g, ok) is).world.2.2) : ok := by
  induction p generalizing w g ok is with
  | ret a => exact h
  | raise e => exact h
  | call c next ih => exact (ih _ h).1

theorem Ensures.always
    (hp : p.Ensures (H.noting (flagging note prop)) (fun i v c => good i (v.1, v.2.1) c)
      (fun _ v => v.2.2) (w, g, ok))
    (hmeets : p.Meets (H.noting note) good (w, g) is) : p.Meets (H.noting note) prop (w, g) is := by
  induction p generalizing w g ok is with
  | ret a => trivial
  | raise e => trivial
  | call c next ih =>
    have hnext := hp (is 0) hmeets.1
    have hflag := flag_of_run (hnext.run (meets_flagging_iff.2 hmeets.2))
    exact ⟨hflag.2, ih _ hnext hmeets.2⟩

end Flagging

end Program

end Foundation
