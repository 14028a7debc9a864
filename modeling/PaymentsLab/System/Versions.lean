import PaymentsLab.System.Integrity

/-!
# The version of a payment as an optimistic lock

`mark_processing` is guarded by the version its caller has loaded and adds one; `mark_confirmed`
and `mark_failed` write a version computed from the payment in memory, without a guard. A worker
that has marked a payment holds its row until the commit, so the committed version stays the one it
has started from (`Worker.Tracks`), and its commit raises it. Hence at most one transaction commits
a `mark_processing` that started from a given version (`version_is_lock`).
-/

namespace PaymentsLab

open Foundation

/-! ## What a transaction of a worker does -/

namespace Processor

/-- The payments with their versions that the transaction a worker is in has loaded and has marked
processing, and whether it has called the provider. -/
structure Transaction where
  loaded : List (UUID × Int)
  marked : List (UUID × Int)
  calledProvider : Bool
  deriving DecidableEq

/-- A transaction that has just begun. -/
def Transaction.begin : Transaction :=
  ⟨[], [], false⟩

/-- The payment a step loads. -/
def Worker.loads (t : Session) (w : World) (l : Worker) : Option Payment :=
  match l.pc, l.events with
  | .requested, event :: _ => PaymentRepository.getById w t event.aggregateId
  | _, _ => none

/-- The payment whose row a `mark_processing` matches. -/
def Worker.matches (t : Session) (w : World) (l : Worker) : Option Payment :=
  match l.pc with
  | .loaded _ payment =>
    if (PaymentRepository.markProcessing w t payment).any (·.2) then some payment else none
  | _ => none

/-- The transaction after one more step of its worker. -/
def Worker.record (t : Session) (w : World) (l : Worker) (tx : Transaction) :
    WorkerAction → Transaction
  | .getById =>
    { tx with loaded := ((l.loads t w).map fun p => (p.paymentId, p.version)).toList ++ tx.loaded }
  | .markProcessing =>
    { tx with
      marked := ((l.matches t w).map fun p => (p.paymentId, p.version)).toList ++ tx.marked }
  | .callProvider .. => { tx with calledProvider := true }
  | .commit => .begin
  | .crash => .begin
  | _ => tx

/-- When a `mark_processing` matches. -/
theorem markProcessing_any {w : World} {t : Session} {payment : Payment} :
    (PaymentRepository.markProcessing w t payment).any (·.2) = true ↔
      w.payments.Free t payment.paymentId ∧
        ∃ row, w.payments.view t payment.paymentId = some row ∧ row.version = payment.version := by
  unfold PaymentRepository.markProcessing PaymentRepository.run RowStore.update
  by_cases hfree : w.payments.Free t payment.paymentId
  · cases hview : w.payments.view t payment.paymentId with
    | none => simp [hfree]
    | some row => by_cases hversion : row.version = payment.version <;> simp [hfree, hversion]
  · simp only [hfree, if_false, false_and, iff_false]
    split <;> simp

theorem Settings.le_version_afterMarkProcessing (cfg : Settings) (payment : Payment) :
    payment.version ≤ (cfg.afterMarkProcessing payment).version := by
  unfold afterMarkProcessing
  split
  · exact Int.le_add_one (Int.le_refl _)
  · exact Int.le_refl _

/-! ## What a worker holds, and since which version -/

/-- The session holds a version of the payment that is newer than the committed one, which is the
one its transaction has loaded and marked. -/
def HoldsNewer (w : World) (t : Session) (payment : Payment) (tx : Transaction) : Prop :=
  ∃ row own, w.payments.committed payment.paymentId = some row ∧
    w.payments.writes t = Function.update (fun _ => none) payment.paymentId (some own) ∧
    row.version < own.version ∧ row.version ≤ payment.version ∧
    tx.loaded = [(payment.paymentId, row.version)] ∧
    tx.marked = [(payment.paymentId, row.version)]

/-- What the transaction of a worker has done at each place of its program. -/
def Worker.Tracks (w : World) (t : Session) (tx : Transaction) : WorkerPc → Prop
  | .loaded _ payment => tx = ⟨[(payment.paymentId, payment.version)], [], false⟩
  | .lost _ => tx.marked = [] ∧ tx.calledProvider = false
  | .committing _ .lost => tx.marked = [] ∧ tx.calledProvider = false
  | .processing _ payment => HoldsNewer w t payment tx
  | .answered _ payment _ => HoldsNewer w t payment tx
  | .finalized _ payment _ => HoldsNewer w t payment tx
  | .committing _ (.settled payment _) => HoldsNewer w t payment tx
  | _ => tx = .begin

theorem HoldsNewer.stable {w w' : World} {t : Session} {payment : Payment} {tx : Transaction}
    (h : HoldsNewer w t payment tx) (hr : w.Rely t w') : HoldsNewer w' t payment tx := by
  obtain ⟨row, own, hrow, hown, hrest⟩ := h
  refine ⟨row, own, ?_, hr.payments.writes.trans hown, hrest⟩
  rw [hr.payments.held (by rw [hown, Function.update_self]; rfl)]
  exact hrow

/-- It is a matter of the payments table, and of what has been loaded and marked. -/
theorem HoldsNewer.congr {w w' : World} {t : Session} {payment payment' : Payment}
    {tx tx' : Transaction} (h : HoldsNewer w t payment tx) (hpayments : w'.payments = w.payments)
    (hid : payment'.paymentId = payment.paymentId) (hversion : payment'.version = payment.version)
    (hloaded : tx'.loaded = tx.loaded) (hmarked : tx'.marked = tx.marked) :
    HoldsNewer w' t payment' tx' := by
  obtain ⟨row, own, hrow⟩ := h
  refine ⟨row, own, ?_⟩
  rw [hpayments, hid, hversion, hloaded, hmarked]
  exact hrow

namespace Worker.Tracks

variable {cfg : Settings} {w w' : World} {t : Session} {l l' : Worker} {a : WorkerAction}
  {tx : Transaction}

theorem stable {pc : WorkerPc} (h : Tracks w t tx pc) (hr : w.Rely t w') : Tracks w' t tx pc := by
  cases pc with
  | processing | answered | finalized => exact HoldsNewer.stable h hr
  | committing event branch =>
    cases branch with
    | missing | lost => exact h
    | settled => exact HoldsNewer.stable h hr
  | _ => exact h

/-- The marks on the outbox. -/
theorem marks {event : OutboxEvent} {m : EventMark} {now : Instant} {draw : Int} {pc : WorkerPc}
    (h : Tracks w t tx pc) (hmark : markEvent w t event m now draw = some w') :
    Tracks w' t tx pc := by
  obtain ⟨outbox, rfl⟩ := markEvent_tables hmark
  exact h

/-- Every step of a worker. -/
theorem next (hinv : Worker.Inv cfg w t l) (h : Tracks w t tx l.pc)
    (hn : Next cfg t w l a w' l') : Tracks w' t (l.record t w tx a) l'.pc := by
  obtain ⟨breakers, batch, pc⟩ := l
  cases hn with
  | fetched pc | fetchedFanout pc | published pc =>
    cases pc
    exact h
  | found pc events row =>
    cases pc
    cases events
    have htx : tx = .begin := h
    subst htx
    have hload : PaymentRepository.getById w t _ = some _ := row
    simp [Tracks, record, loads, hload, Transaction.begin]
  | notFound pc events row =>
    cases pc
    cases events
    have htx : tx = .begin := h
    subst htx
    have hload : PaymentRepository.getById w t _ = none := row
    simp [Tracks, record, loads, hload, Transaction.begin]
  | markedMissing pc mark | markedLost pc mark | marked pc mark | markedFanout pc mark =>
    cases pc
    exact marks h mark
  | @locked event payment row pc free view version =>
    cases pc
    have htx : tx = ⟨[(payment.paymentId, payment.version)], [], false⟩ := h
    subst htx
    have hmatch := markProcessing_any.2 ⟨free, row, view, version⟩
    have hclean := hinv.clean rfl rfl rfl
    rw [RowStore.view_of_committed (by rw [hclean.payments])] at view
    refine ⟨row, { row with status := .processing, version := payment.version + 1 }, ?_, ?_, ?_,
      ?_, ?_, ?_⟩
    · simpa using view
    · rw [RowStore.writes_put_self, hclean.payments, Settings.paymentId_afterMarkProcessing]
    · show row.version < payment.version + 1
      omega
    · exact version.trans_le (cfg.le_version_afterMarkProcessing payment)
    · simp [record, version]
    · simp [record, Worker.matches, hmatch, version]
  | @missed event payment pc stale =>
    cases pc
    have htx : tx = ⟨[(payment.paymentId, payment.version)], [], false⟩ := h
    subst htx
    have hmiss : (PaymentRepository.markProcessing w t payment).any (·.2) = false := by
      rw [Bool.eq_false_iff, Ne, markProcessing_any]
      rintro ⟨-, row, hview, hversion⟩
      have hclean := hinv.clean rfl rfl rfl
      have hcommitted := hview
      rw [RowStore.view_of_committed (by rw [hclean.payments])] at hcommitted
      exact (stale row hview (by simp [hcommitted])).2 hversion
    simp [Tracks, record, Worker.matches, hmiss]
  | called pc =>
    cases pc
    exact HoldsNewer.congr h rfl rfl rfl rfl rfl
  | @finalized event payment outcome eventId now w' f pc final run =>
    cases pc
    obtain ⟨row, own, hrow, hown, -, hle, hloaded, hmarked⟩ :
      HoldsNewer w t payment tx := h
    have hwrites : w.payments.writes t payment.paymentId = some own := by
      rw [hown, Function.update_self]
    obtain ⟨-, -, -, -, rfl⟩ := Finalization.run_eq_some hwrites run
    refine ⟨row, f.set payment own, ?_, ?_, ?_, hle, hloaded, hmarked⟩
    · simpa using hrow
    · rw [RowStore.writes_put_self, hown, Function.update_idem]
    · have hset : (f.set payment own).version = payment.version + 2 := by
        cases f <;> rfl
      omega
  | unfinalized pc =>
    cases pc
    exact h
  | committed pc | committedFanout pc =>
    cases pc
    rfl
  | ended pc =>
    rcases pc with pc | pc <;>
    · cases pc
      exact h
  | crashed => rfl

/-- A transaction that has marked a payment holds a version newer than the one it has marked,
which is still the committed one. -/
theorem of_marked {pc : WorkerPc} (h : Tracks w t tx pc) {k : UUID} {v : Int}
    (hmarked : (k, v) ∈ tx.marked) :
    ∃ row own, w.payments.committed k = some row ∧ row.version = v ∧
      w.payments.writes t k = some own ∧ v < own.version := by
  have held {payment : Payment} (h : HoldsNewer w t payment tx) : ∃ row own,
      w.payments.committed k = some row ∧ row.version = v ∧
        w.payments.writes t k = some own ∧ v < own.version := by
    obtain ⟨row, own, hrow, hown, hlt, -, -, htx⟩ := h
    rw [htx, List.mem_singleton, Prod.mk.injEq] at hmarked
    obtain ⟨rfl, rfl⟩ := hmarked
    exact ⟨row, own, hrow, rfl, by rw [hown, Function.update_self], hlt⟩
  have quiet (h : tx.marked = []) : ∃ row own,
      w.payments.committed k = some row ∧ row.version = v ∧
        w.payments.writes t k = some own ∧ v < own.version := by
    rw [h] at hmarked
    cases hmarked
  cases pc with
  | processing | answered | finalized => exact held h
  | committing event branch =>
    cases branch with
    | missing => exact quiet (congrArg Transaction.marked h)
    | lost => exact quiet h.1
    | settled => exact held h
  | lost => exact quiet h.1
  | _ => exact quiet (congrArg Transaction.marked h)

/-- A transaction that has called the provider has marked what it has loaded. -/
theorem of_called {pc : WorkerPc} (h : Tracks w t tx pc) (hcalled : tx.calledProvider = true) :
    tx.loaded = tx.marked := by
  have held {payment : Payment} (h : HoldsNewer w t payment tx) : tx.loaded = tx.marked := by
    obtain ⟨row, own, -, -, -, -, hloaded, hmarked⟩ := h
    rw [hloaded, hmarked]
  have quiet (h : tx.calledProvider = false) : tx.loaded = tx.marked := by
    rw [h] at hcalled
    cases hcalled
  cases pc with
  | processing | answered | finalized => exact held h
  | committing event branch =>
    cases branch with
    | missing => exact quiet (congrArg Transaction.calledProvider h)
    | lost => exact quiet h.2
    | settled => exact held h
  | lost => exact quiet h.2
  | _ => exact quiet (congrArg Transaction.calledProvider h)

end Worker.Tracks

end Processor

/-! ## Versions that rise -/

namespace World

/-- Committed payments stay, and one that changes has a higher version. -/
def Raises (w w' : World) : Prop :=
  ∀ k row, w.payments.committed k = some row →
    ∃ row', w'.payments.committed k = some row' ∧ (row' = row ∨ row.version < row'.version)

/-- Committed payments stay, with no lower version. -/
def Keeps (w w' : World) : Prop :=
  ∀ k row, w.payments.committed k = some row →
    ∃ row', w'.payments.committed k = some row' ∧ row.version ≤ row'.version

/-- No payment row that session `t` holds has a lower version than the committed one. -/
def Newer (w : World) (t : Session) : Prop :=
  ∀ k own row, w.payments.writes t k = some own → w.payments.committed k = some row →
    row.version ≤ own.version

variable {w w' w'' : World} {t : Session}

theorem Raises.keeps (h : Raises w w') : Keeps w w' := by
  intro k row hrow
  obtain ⟨row', hrow', rfl | hlt⟩ := h k row hrow
  · exact ⟨row', hrow', Int.le_refl _⟩
  · exact ⟨row', hrow', Int.le_of_lt hlt⟩

theorem Raises.of_committed
    (h : ∀ k, w'.payments.committed k = w.payments.committed k) : Raises w w' := by
  intro k row hrow
  exact ⟨row, by rw [h, hrow], .inl rfl⟩

theorem Keeps.refl (w : World) : Keeps w w :=
  fun _ row hrow => ⟨row, hrow, Int.le_refl _⟩

theorem Keeps.trans (h : Keeps w w') (h' : Keeps w' w'') : Keeps w w'' := by
  intro k row hrow
  obtain ⟨row₁, hrow₁, hle⟩ := h k row hrow
  obtain ⟨row₂, hrow₂, hle'⟩ := h' k row₁ hrow₁
  exact ⟨row₂, hrow₂, Int.le_trans hle hle'⟩

/-- A commit keeps the versions if the rows it publishes do. -/
theorem Newer.keeps_commit (h : w.Newer t) : Keeps w (w.commit t) := by
  intro k row hrow
  cases hown : w.payments.writes t k with
  | none => exact ⟨row, by simp [hown, hrow], Int.le_refl _⟩
  | some own => exact ⟨own, by simp [hown], h k own row hown hrow⟩

theorem Clean.newer (h : w.Clean t) : w.Newer t := by
  intro k own row hown
  rw [h.payments] at hown
  cases hown

theorem Newer.stable (h : w.Newer t) (hr : w.Rely t w') : w'.Newer t := by
  intro k own row hown hrow
  rw [hr.payments.writes] at hown
  rw [hr.payments.held (by simp [hown])] at hrow
  exact h k own row hown hrow

/-- A row of the version the session sees. -/
theorem Newer.put (h : w.Newer t) {k : UUID} {r : Payment}
    (hr : ∀ row, w.payments.committed k = some row → row.version ≤ r.version) :
    Newer { w with payments := w.payments.put t k r } t := by
  intro k' own row hown hrow
  simp only [RowStore.writes_put_self] at hown
  simp only [RowStore.committed_put] at hrow
  by_cases hk : k' = k
  · subst hk
    rw [Function.update_self] at hown
    cases hown
    exact hr row hrow
  · rw [Function.update_of_ne hk] at hown
    exact h k' own row hown hrow

end World

/-- A step of a worker raises the versions it changes. -/
theorem Processor.Worker.Tracks.raises {cfg : Processor.Settings} {w w' : World} {t : Session}
    {l l' : Processor.Worker} {a : Processor.WorkerAction} {tx : Processor.Transaction}
    (hinv : Processor.Worker.Inv cfg w t l) (h : Processor.Worker.Tracks w t tx l.pc)
    (hn : Processor.Next cfg t w l a w' l') : w.Raises w' := by
  obtain ⟨breakers, batch, pc⟩ := l
  cases hn with
  | fetched | found | notFound | missed | called | unfinalized | fetchedFanout | published
  | ended => exact .of_committed fun _ => rfl
  | markedMissing pc mark | markedLost pc mark | marked pc mark | markedFanout pc mark =>
    obtain ⟨outbox, rfl⟩ := Processor.markEvent_tables mark
    exact .of_committed fun _ => rfl
  | locked => exact .of_committed fun k => by simp
  | @finalized event payment outcome eventId now w' f pc final run =>
    cases pc
    obtain ⟨row, own, hrow, hown, -⟩ : Processor.HoldsNewer w t payment tx := h
    have hwrites : w.payments.writes t payment.paymentId = some own := by
      rw [hown, Function.update_self]
    obtain ⟨-, -, -, -, rfl⟩ := Processor.Finalization.run_eq_some hwrites run
    exact .of_committed fun k => by simp
  | @committed event branch pc =>
    cases pc
    cases branch with
    | missing | lost =>
      have hclean := hinv.free rfl
      exact .of_committed fun k => by simp [hclean]
    | settled payment outcome =>
      obtain ⟨row, own, hrow, hown, hlt, -⟩ : Processor.HoldsNewer w t payment tx := h
      intro k row' hrow'
      by_cases hk : k = payment.paymentId
      · subst hk
        cases hrow.symm.trans hrow'
        exact ⟨own, by simp [hown], .inr hlt⟩
      · exact ⟨row', by simp [hown, Function.update_of_ne hk, hrow'], .inl rfl⟩
  | committedFanout pc =>
    cases pc
    have hclean := hinv.free rfl
    exact .of_committed fun k => by simp [hclean]
  | crashed => exact .of_committed fun k => by simp

/-- A review call never changes the version of a payment. -/
theorem Review.Next.keeps {t : Session} {w w' : World} {c c' : Review.Call} {a : Review.Action}
    (h : Review.Next t w c a w' c') (hnewer : w.Newer t) : w.Keeps w' ∧ w'.Newer t := by
  induction h with
  | loaded | refused | unmatched | refusedAtOnce | recorded => exact ⟨.refl _, hnewer⟩
  | @updated w c payment row pc free view =>
    refine ⟨(World.Raises.of_committed fun k => by simp).keeps, hnewer.put fun row' hrow' => ?_⟩
    rw [RowStore.view, Option.or_eq_some_iff] at view
    rcases view with hown | ⟨-, hrow⟩
    · exact hnewer c.paymentId row row' hown hrow'
    · cases hrow.symm.trans hrow'
      exact Int.le_refl _
  | approved | rejected =>
    exact ⟨World.Newer.keeps_commit hnewer, (World.clean_commit _ t).newer⟩
  | decided load update commit ihLoad ihUpdate ihCommit =>
    obtain ⟨k₁, n₁⟩ := ihLoad hnewer
    obtain ⟨k₂, n₂⟩ := ihUpdate n₁
    obtain ⟨k₃, n₃⟩ := ihCommit n₂
    exact ⟨k₁.trans (k₂.trans k₃), n₃⟩
  | crashed =>
    exact ⟨(World.Raises.of_committed fun k => by simp).keeps, (World.clean_rollback _ t).newer⟩

/-- A creation inserts new rows only. -/
theorem Create.Next.keeps {t : Session} {w w' : World} {r r' : Create.Run} {a : Create.Action}
    (h : Create.Next t w r a w' r') (hclean : w.Clean t) : w.Keeps w' := by
  cases h with
  | @acquired reply pc =>
    obtain ⟨gate, hgate⟩ := r.acquire_fst w reply
    rw [hgate]
    exact .refl _
  | @persisted decision response eventId now w₁ pc free rows =>
    obtain ⟨hnew, -, -, rfl⟩ := Create.Run.insertRows_eq_some rows
    have hput := hclean.newer.put (k := response.paymentId)
      (r := (r.paymentRow decision response now).inserted) fun row hrow => by simp [hnew] at hrow
    intro k row hrow
    exact World.Newer.keeps_commit hput k row (by simpa using hrow)
  | _ => exact .refl _

/-! ## Transactions in a history -/

/-- The transaction of worker `n` after a step of any session. -/
def Session.record (n : Nat) :
    (t : Session) → World → t.Local → t.Act → Processor.Transaction → Processor.Transaction
  | .worker m, w, l, a, tx => if m = n then Processor.Worker.record (.worker m) w l tx a else tx
  | _, _, _, _, tx => tx

def Processor.WorkerAction.isCommit : Processor.WorkerAction → Bool
  | .commit => true
  | _ => false

/-- The worker that commits in a step. -/
def Session.committer : (t : Session) → t.Act → Option Nat
  | .worker n, a => if Processor.WorkerAction.isCommit a then some n else none
  | _, _ => none

namespace Payments

variable {cfg : Processor.Settings}

/-- The transaction worker `n` is in after these steps. -/
def transaction (n : Nat) : History cfg → Processor.Transaction
  | [] => .begin
  | x :: history => Session.record n x.process x.world x.before x.act (transaction n history)

/-- How many transactions of workers have committed and are as `P` says. -/
def committedWith (P : Processor.Transaction → Bool) : History cfg → Nat
  | [] => 0
  | x :: history =>
    committedWith P history +
      if (Session.committer x.process x.act).any fun n => P (transaction n history) then 1 else 0

/-- The transaction has marked payment `k` processing, from version `v`. -/
def marks (k : UUID) (v : Int) (tx : Processor.Transaction) : Bool :=
  (k, v) ∈ tx.marked

/-- The transaction has loaded payment `k` with version `v`, and has called the provider. -/
def calls (k : UUID) (v : Int) (tx : Processor.Transaction) : Bool :=
  (k, v) ∈ tx.loaded ∧ tx.calledProvider

/-- What every session does to the versions, in a state with its history. -/
structure Versioned (history : History cfg) (s : State cfg) : Prop where
  integrity : Integrity s
  tracks : ∀ n, Processor.Worker.Tracks s.world (.worker n) (transaction n history) (worker s n).pc
  newer : ∀ n, s.world.Newer (.review n)
  /-- a version that a committed transaction has started from is below the committed one -/
  passed : ∀ k v, committedWith (marks k v) history ≠ 0 →
    ∃ row, s.world.payments.committed k = some row ∧ v < row.version
  once : ∀ k v, committedWith (marks k v) history ≤ 1
  called : ∀ k v, committedWith (calls k v) history ≤ committedWith (marks k v) history

namespace Versioned

variable {history : History cfg} {s s' : State cfg}

theorem initial (h : Initial s) : Versioned [] s where
  integrity := .initial h
  tracks n := by
    rw [h.worker n]
    rfl
  newer n := by
    intro k own row hown
    rw [h.world] at hown
    cases hown
  passed k v h := absurd rfl h
  once k v := Nat.zero_le 1
  called k v := Nat.le_refl 0

/-- The transactions after a step. -/
theorem tracks_next (h : Versioned history s) {i : Session} {a : i.Act}
    (hstep : s.step i a = some s') (n : Nat) :
    Processor.Worker.Tracks s'.world (.worker n)
      (transaction n (⟨i, s.world, s.proc i, a⟩ :: history)) (worker s' n).pc := by
  by_cases hi : i = .worker n
  · subst hi
    have hn := Processor.Worker.next_of_step (System.State.step_self hstep)
    have htx : transaction n (⟨.worker n, s.world, s.proc (.worker n), a⟩ :: history) =
        (worker s n).record (.worker n) s.world (transaction n history) a := by
      simp [transaction, Session.record, worker]
    rw [htx]
    exact Processor.Worker.Tracks.next (h.integrity.inv (.worker n)) (h.tracks n) hn
  · have hrely := (h.integrity.next hstep).1.rely h.integrity.wf (Ne.symm hi)
    have hsame : worker s' n = worker s n := System.State.step_proc_ne hstep (Ne.symm hi)
    have htx : transaction n (⟨i, s.world, s.proc i, a⟩ :: history) = transaction n history := by
      cases i with
      | worker m =>
        have hm : m ≠ n := fun hm => hi (congrArg Session.worker hm)
        simp [transaction, Session.record, hm]
      | review | create | environment => rfl
    rw [htx, hsame]
    exact (h.tracks n).stable hrely

/-- The versions after a step: no session lowers one, and a worker raises those it changes. -/
theorem keeps_next (h : Versioned history s) {i : Session} {a : i.Act}
    (hstep : s.step i a = some s') :
    s.world.Keeps s'.world ∧ (∀ n, i = .worker n → s.world.Raises s'.world) ∧
      ∀ n, s'.world.Newer (.review n) := by
  have hown := System.State.step_self hstep
  have hnewer (n : Nat) (hi : Session.review n ≠ i) : s'.world.Newer (.review n) :=
    (h.newer n).stable ((h.integrity.next hstep).1.rely h.integrity.wf hi)
  cases i with
  | worker m =>
    have hraises := Processor.Worker.Tracks.raises (h.integrity.inv (.worker m)) (h.tracks m)
      (Processor.Worker.next_of_step hown)
    exact ⟨hraises.keeps, fun _ _ => hraises, fun n => hnewer n (by simp)⟩
  | review m =>
    have hkeeps := (Review.Call.next_of_step hown).keeps (h.newer m)
    refine ⟨hkeeps.1, by simp, fun n => ?_⟩
    by_cases hn : n = m
    · subst hn
      exact hkeeps.2
    · exact hnewer n (by simpa using hn)
  | create m =>
    have hclean := (h.integrity.inv (.create m)).clean
    exact ⟨(Create.Run.next_of_step hown).keeps hclean, by simp, fun n => hnewer n (by simp)⟩
  | environment =>
    cases a with
    | expireGate key =>
      have hpayments := congrArg World.payments (Prod.mk.inj (Option.some.inj hown)).1
      have hraises : s.world.Raises s'.world := .of_committed fun k => by rw [← hpayments]
      exact ⟨hraises.keeps, by simp, fun n => hnewer n (by simp)⟩

/-- A transaction that commits a mark has started from the committed version, and raises it. -/
theorem committed_next (h : Versioned history s) {i : Session} {a : i.Act}
    (hstep : s.step i a = some s') {n : Nat} (hn : Session.committer i a = some n) {k : UUID}
    {v : Int} (hmarked : (k, v) ∈ (transaction n history).marked) :
    (∃ row, s.world.payments.committed k = some row ∧ row.version = v) ∧
      ∃ row, s'.world.payments.committed k = some row ∧ v < row.version := by
  obtain ⟨row, own, hrow, hversion, hown, hlt⟩ := (h.tracks n).of_marked hmarked
  refine ⟨⟨row, hrow, hversion⟩, own, ?_, hlt⟩
  cases i with
  | review | create | environment => cases hn
  | worker m =>
    simp only [Session.committer] at hn
    split at hn
    · next hcommit =>
      cases hn
      have hnext := Processor.Worker.next_of_step (System.State.step_self hstep)
      cases a with
      | commit =>
        have hworld : s'.world = s.world.commit (.worker n) := by
          generalize s'.world = w', s'.proc (.worker n) = l' at hnext
          cases hnext <;> rfl
        simp [hworld, hown]
      | _ => cases hcommit
    · cases hn

theorem next (h : Versioned history s) {i : Session} {a : i.Act}
    (hstep : s.step i a = some s') :
    Versioned (⟨i, s.world, s.proc i, a⟩ :: history) s' := by
  obtain ⟨hkeeps, -, hnewer⟩ := h.keeps_next hstep
  have hpassed (k : UUID) (v : Int) (hcount : committedWith (marks k v) history ≠ 0) :
      ∃ row, s'.world.payments.committed k = some row ∧ v < row.version := by
    obtain ⟨row, hrow, hlt⟩ := h.passed k v hcount
    obtain ⟨row', hrow', hle⟩ := hkeeps k row hrow
    exact ⟨row', hrow', Int.lt_of_lt_of_le hlt hle⟩
  refine ⟨(h.integrity.next hstep).2, h.tracks_next hstep, hnewer, fun k v hcount => ?_,
    fun k v => ?_, fun k v => ?_⟩
  · cases hn : Session.committer i a with
    | none => exact hpassed k v (by simpa [committedWith, hn] using hcount)
    | some n =>
      by_cases hmarked : (k, v) ∈ (transaction n history).marked
      · exact (h.committed_next hstep hn hmarked).2
      · exact hpassed k v (by simpa [committedWith, hn, marks, hmarked] using hcount)
  · have honce := h.once k v
    cases hn : Session.committer i a with
    | none => simpa [committedWith, hn] using honce
    | some n =>
      by_cases hmarked : (k, v) ∈ (transaction n history).marked
      · -- the committed version is still `v`, so no transaction that started from it has committed
        obtain ⟨⟨row, hrow, hversion⟩, -⟩ := h.committed_next hstep hn hmarked
        have hnone : committedWith (marks k v) history = 0 := by
          by_contra hcount
          obtain ⟨row', hrow', hlt⟩ := h.passed k v hcount
          cases hrow.symm.trans hrow'
          omega
        simp [committedWith, hn, marks, hmarked, hnone]
      · simpa [committedWith, hn, marks, hmarked] using honce
  · have hcalled := h.called k v
    cases hn : Session.committer i a with
    | none => simpa [committedWith, hn] using hcalled
    | some n =>
      have htransaction : calls k v (transaction n history) = true →
          marks k v (transaction n history) = true := by
        simp only [calls, marks, decide_eq_true_eq]
        rintro ⟨hloaded, hcall⟩
        rwa [← (h.tracks n).of_called hcall]
      simp only [committedWith, hn, Option.any_some]
      by_cases hcall : calls k v (transaction n history) = true
      · rw [if_pos hcall, if_pos (htransaction hcall)]
        omega
      · rw [if_neg hcall]
        omega

end Versioned

theorem versioned_of_runs {good : (payments cfg).Condition} {history : History cfg}
    {s₀ s : State cfg} (hs : Initial s₀) (hrun : (payments cfg).Runs good s₀ history s) :
    Versioned history s :=
  hrun.invariant (I := fun history s => Versioned history s)
    (fun h _ hstep => h.next hstep) (.initial hs)

/-- The version of a payment is an optimistic lock, in a state with its history. -/
structure VersionLocks (history : History cfg) (s : State cfg) : Prop where
  /-- no session lowers a version, and a worker that changes a payment raises it -/
  raised : ∀ (i : Session) (a : i.Act) (s' : State cfg), s.step i a = some s' →
    ∀ k row, s.world.payments.committed k = some row →
      ∃ row', s'.world.payments.committed k = some row' ∧ row.version ≤ row'.version ∧
        ((∃ n, i = .worker n) → row' ≠ row → row.version < row'.version)
  /-- at most one committed transaction has started from a version -/
  once : ∀ k v, committedWith (marks k v) history ≤ 1
  /-- at most one that has loaded a version has called the provider -/
  called_once : ∀ k v, committedWith (calls k v) history ≤ 1

/-- For every number of workers and every interleaving of their statements with those of reviews
and creations, the version of a payment is an optimistic lock. -/
theorem version_is_lock {good : (payments cfg).Condition} {history : History cfg}
    {s₀ s : State cfg} (hs : Initial s₀) (hrun : (payments cfg).Runs good s₀ history s) :
    VersionLocks history s := by
  have h := versioned_of_runs hs hrun
  refine ⟨fun i a s' hstep k row hrow => ?_, h.once, fun k v => (h.called k v).trans (h.once k v)⟩
  obtain ⟨hkeeps, hraises, -⟩ := h.keeps_next hstep
  obtain ⟨row', hrow', hle⟩ := hkeeps k row hrow
  refine ⟨row', hrow', hle, ?_⟩
  rintro ⟨n, hn⟩ hne
  obtain ⟨row'', hrow'', hcases⟩ := hraises n hn k row hrow
  cases hrow'.symm.trans hrow''
  exact hcases.resolve_left hne

/-- Payment 1 is created, and two workers load it before one of them marks it. -/
def contended : List (Σ i, (payments sampleSettings).Act i) :=
  fetchedTwice ++
    [⟨.worker 0, Processor.WorkerAction.getById⟩, ⟨.worker 1, Processor.WorkerAction.getById⟩,
      ⟨.worker 0, Processor.WorkerAction.markProcessing⟩,
      ⟨.worker 0, Processor.WorkerAction.callProvider 0 0 fun _ => answer false⟩] ++
    settle 0 20 0 ++ lose 1

set_option maxRecDepth 10000 in
/-- Two workers load version 1, one of them confirms the payment and the other gives up. -/
theorem version_is_lock_contended : ∃ history s,
    (payments sampleSettings).Runs ((payments sampleSettings).anyStep).condition sample history s ∧
      VersionLocks history s ∧
      (s.world.payments.committed 1).map (fun row => (row.status, row.version)) =
        some (.confirmed, 4) := by
  have hrun : (System.State.run ((payments sampleSettings).anyStep) contended sample).map
      (fun s => (s.world.payments.committed 1).map fun row => (row.status, row.version)) =
      some (some (.confirmed, 4)) := by
    decide +kernel
  obtain ⟨s, hs, heq⟩ := Option.map_eq_some_iff.1 hrun
  obtain ⟨history, hruns⟩ := System.Runs.exists_of_reaches (System.Reaches.of_run hs)
  exact ⟨history, s, hruns, version_is_lock (fresh_initial _ _ _) hruns, heq⟩

end Payments

end PaymentsLab
