import Mathlib.Data.Fintype.EquivFin
import Mathlib.Data.List.Nodup
import Mathlib.Logic.Function.Basic

/-!
# A table under READ COMMITTED with row locks

Every key owns a `Cell`: the committed row, and at most one uncommitted row together with the
transaction that wrote it. One uncommitted row per key is exactly what a row lock held from the
first write to the end of the transaction guarantees, so two transactions can never hold versions
of one row (`RowStore.exclusive`).

* `update` is `UPDATE … WHERE key = k AND p`: undefined while another transaction holds the row,
  and evaluated on the latest committed row (or the transaction's own version) once it does not.
* `insert` adds a row under a fresh key; `commit` and `rollback` end a transaction.
* `rows` lists the committed rows in the order of their keys' first insertion.

The simp lemmas say what each operation does to the committed rows (`committed`) and to the
uncommitted rows of each transaction (`writes`).
-/

namespace Foundation

universe u v w

/-- The committed row of a key and its uncommitted version. -/
structure Cell (τ : Type u) (ρ : Type w) where
  committed : Option ρ
  uncommitted : Option (τ × ρ)
  deriving DecidableEq

/-- A table: its keys in insertion order, and the cell of each key. -/
structure RowStore (τ : Type u) (κ : Type v) (ρ : Type w) where
  keys : List κ
  cell : κ → Cell τ ρ
  nodup : keys.Nodup
  absent : ∀ k, k ∉ keys → cell k = ⟨none, none⟩

namespace RowStore

variable {τ : Type u} {κ : Type v} {ρ : Type w}

/-- The empty table. -/
def empty : RowStore τ κ ρ where
  keys := []
  cell _ := ⟨none, none⟩
  nodup := List.nodup_nil
  absent _ _ := rfl

/-- The row every other transaction sees. -/
def committed (s : RowStore τ κ ρ) (k : κ) : Option ρ :=
  (s.cell k).committed

/-- The committed rows. -/
def rows (s : RowStore τ κ ρ) : List ρ :=
  s.keys.filterMap s.committed

theorem mem_keys_of_committed {s : RowStore τ κ ρ} {k : κ} {r : ρ}
    (h : s.committed k = some r) : k ∈ s.keys := by
  by_contra hk
  rw [committed, s.absent k hk] at h
  cases h

theorem mem_rows {s : RowStore τ κ ρ} {r : ρ} :
    r ∈ s.rows ↔ ∃ k, s.committed k = some r := by
  unfold rows
  rw [List.mem_filterMap]
  constructor
  · rintro ⟨k, -, h⟩
    exact ⟨k, h⟩
  · rintro ⟨k, h⟩
    exact ⟨k, mem_keys_of_committed h, h⟩

/-- Rows stored under their own key are listed once each. -/
theorem nodup_rows {s : RowStore τ κ ρ} {key : ρ → κ}
    (hkey : ∀ k r, s.committed k = some r → key r = k) : s.rows.Nodup := by
  refine s.nodup.filterMap ?_
  intro k k' r hk hk'
  rw [← hkey k r hk, ← hkey k' r hk']

/-- Rows stored under their own key have different keys. -/
theorem nodup_map_rows {s : RowStore τ κ ρ} {key : ρ → κ}
    (hkey : ∀ k r, s.committed k = some r → key r = k) : (s.rows.map key).Nodup := by
  refine (nodup_rows hkey).map_on fun r hr r' hr' heq => ?_
  obtain ⟨k, hk⟩ := mem_rows.1 hr
  obtain ⟨k', hk'⟩ := mem_rows.1 hr'
  rw [hkey k r hk, hkey k' r' hk'] at heq
  subst heq
  exact Option.some.inj (hk.symm.trans hk')

/-- A committed row found by a predicate. -/
theorem find?_rows {s : RowStore τ κ ρ} {p : ρ → Bool} {r : ρ} (h : s.rows.find? p = some r) :
    p r = true ∧ ∃ k, s.committed k = some r :=
  ⟨List.find?_some h, mem_rows.1 (List.mem_of_find?_eq_some h)⟩

@[simp] theorem committed_empty (k : κ) : (empty : RowStore τ κ ρ).committed k = none :=
  rfl

section Transactions

variable [DecidableEq τ]

/-- The uncommitted rows of transaction `t`. -/
def writes (s : RowStore τ κ ρ) (t : τ) (k : κ) : Option ρ :=
  match (s.cell k).uncommitted with
  | some (t', r) => if t' = t then some r else none
  | none => none

@[simp] theorem writes_empty (t : τ) : (empty : RowStore τ κ ρ).writes t = fun _ => none :=
  rfl

/-- The row as transaction `t` sees it: its own version, else the committed one. -/
def view (s : RowStore τ κ ρ) (t : τ) (k : κ) : Option ρ :=
  (s.writes t k).or (s.committed k)

/-- No other transaction holds the row. -/
def Free (s : RowStore τ κ ρ) (t : τ) (k : κ) : Prop :=
  ∀ p ∈ (s.cell k).uncommitted, p.1 = t

instance (s : RowStore τ κ ρ) (t : τ) (k : κ) : Decidable (s.Free t k) :=
  inferInstanceAs (Decidable (∀ p ∈ (s.cell k).uncommitted, p.1 = t))

theorem writes_eq_some {s : RowStore τ κ ρ} {t : τ} {k : κ} {r : ρ} :
    s.writes t k = some r ↔ (s.cell k).uncommitted = some (t, r) := by
  unfold writes
  cases hu : (s.cell k).uncommitted with
  | none => simp
  | some p =>
    obtain ⟨t', r'⟩ := p
    by_cases ht : t' = t <;> simp [ht]

/-- Two transactions never hold versions of one row. -/
theorem exclusive {s : RowStore τ κ ρ} {t t' : τ} {k : κ} {r r' : ρ}
    (h : s.writes t k = some r) (h' : s.writes t' k = some r') : t = t' := by
  rw [writes_eq_some] at h h'
  rw [h] at h'
  exact (Prod.mk.inj (Option.some.inj h')).1

theorem Free.writes_ne {s : RowStore τ κ ρ} {t t' : τ} {k : κ} (h : s.Free t k) (ht : t' ≠ t) :
    s.writes t' k = none := by
  cases hw : s.writes t' k with
  | none => rfl
  | some r => exact absurd (h _ (writes_eq_some.1 hw)) ht

/-- A row that no other transaction holds is free. -/
theorem free_of_writes {s : RowStore τ κ ρ} {t : τ} {k : κ}
    (h : ∀ t', t' ≠ t → s.writes t' k = none) : s.Free t k := by
  rintro ⟨t', r⟩ hu
  by_contra ht
  have hwrites := writes_eq_some.2 hu
  rw [h t' ht] at hwrites
  cases hwrites

theorem view_of_committed {s : RowStore τ κ ρ} {t : τ} {k : κ}
    (h : s.writes t k = none) : s.view t k = s.committed k := by
  simp [view, h]

/-- The end of transaction `t`: `close` says what becomes of each of its uncommitted rows. -/
def finish (s : RowStore τ κ ρ) (t : τ) (close : Option ρ → ρ → Option ρ) : RowStore τ κ ρ where
  keys := s.keys
  cell k :=
    match (s.cell k).uncommitted with
    | some (t', r) => if t' = t then ⟨close (s.cell k).committed r, none⟩ else s.cell k
    | none => s.cell k
  nodup := s.nodup
  absent := by
    intro k hk
    simp [s.absent k hk]

/-- `COMMIT`: the transaction's rows become the committed ones. -/
def commit (s : RowStore τ κ ρ) (t : τ) : RowStore τ κ ρ :=
  s.finish t fun _ r => some r

/-- `ROLLBACK`: the transaction's rows vanish. -/
def rollback (s : RowStore τ κ ρ) (t : τ) : RowStore τ κ ρ :=
  s.finish t fun c _ => c

theorem writes_finish_self (s : RowStore τ κ ρ) (t : τ) (close : Option ρ → ρ → Option ρ) :
    (s.finish t close).writes t = fun _ => none := by
  funext k
  cases hu : (s.cell k).uncommitted with
  | none => simp [finish, writes, hu]
  | some p =>
    obtain ⟨t', r⟩ := p
    by_cases ht : t' = t <;> simp [finish, writes, hu, ht]

theorem writes_finish_ne (s : RowStore τ κ ρ) {t t' : τ} (close : Option ρ → ρ → Option ρ)
    (h : t' ≠ t) : (s.finish t close).writes t' = s.writes t' := by
  funext k
  cases hu : (s.cell k).uncommitted with
  | none => simp [finish, writes, hu]
  | some p =>
    obtain ⟨t'', r⟩ := p
    by_cases ht : t'' = t
    · simp [finish, writes, hu, ht, h.symm]
    · simp [finish, writes, hu, ht]

@[simp] theorem writes_commit_self (s : RowStore τ κ ρ) (t : τ) :
    (s.commit t).writes t = fun _ => none :=
  writes_finish_self s t _

@[simp] theorem writes_rollback_self (s : RowStore τ κ ρ) (t : τ) :
    (s.rollback t).writes t = fun _ => none :=
  writes_finish_self s t _

theorem writes_commit_ne (s : RowStore τ κ ρ) {t t' : τ} (h : t' ≠ t) :
    (s.commit t).writes t' = s.writes t' :=
  writes_finish_ne s _ h

theorem writes_rollback_ne (s : RowStore τ κ ρ) {t t' : τ} (h : t' ≠ t) :
    (s.rollback t).writes t' = s.writes t' :=
  writes_finish_ne s _ h

@[simp] theorem committed_commit (s : RowStore τ κ ρ) (t : τ) (k : κ) :
    (s.commit t).committed k = (s.writes t k).or (s.committed k) := by
  cases hu : (s.cell k).uncommitted with
  | none => simp [commit, finish, committed, writes, hu]
  | some p =>
    obtain ⟨t', r⟩ := p
    by_cases ht : t' = t <;> simp [commit, finish, committed, writes, hu, ht]

@[simp] theorem committed_rollback (s : RowStore τ κ ρ) (t : τ) (k : κ) :
    (s.rollback t).committed k = s.committed k := by
  cases hu : (s.cell k).uncommitted with
  | none => simp [rollback, finish, committed, hu]
  | some p =>
    obtain ⟨t', r⟩ := p
    by_cases ht : t' = t <;> simp [rollback, finish, committed, hu, ht]

variable [DecidableEq κ]

/-- `t` leaves an uncommitted version of row `k`. -/
def put (s : RowStore τ κ ρ) (t : τ) (k : κ) (r : ρ) : RowStore τ κ ρ where
  keys := if k ∈ s.keys then s.keys else s.keys ++ [k]
  cell := Function.update s.cell k ⟨(s.cell k).committed, some (t, r)⟩
  nodup := by
    split
    · exact s.nodup
    · next hk => exact s.nodup.append (by simp) (by simpa using hk)
  absent := by
    intro k' hk'
    have hne : k' ≠ k := by
      rintro rfl
      split at hk'
      · next h => exact hk' h
      · simp at hk'
    have hold : k' ∉ s.keys := by
      intro h
      split at hk'
      · exact hk' h
      · exact hk' (List.mem_append_left _ h)
    rw [Function.update_of_ne hne]
    exact s.absent k' hold

omit [DecidableEq τ] in
@[simp] theorem committed_put (s : RowStore τ κ ρ) (t : τ) (k k' : κ) (r : ρ) :
    (s.put t k r).committed k' = s.committed k' := by
  by_cases h : k' = k
  · subst h
    simp [put, committed]
  · simp [put, committed, Function.update_of_ne h]

@[simp] theorem writes_put_self (s : RowStore τ κ ρ) (t : τ) (k : κ) (r : ρ) :
    (s.put t k r).writes t = Function.update (s.writes t) k (some r) := by
  funext k'
  by_cases h : k' = k
  · subst h
    simp [put, writes]
  · simp [put, writes, Function.update_of_ne h]

theorem writes_put_ne {s : RowStore τ κ ρ} {t t' : τ} {k : κ} {r : ρ} (hfree : s.Free t k)
    (ht : t' ≠ t) : (s.put t k r).writes t' = s.writes t' := by
  funext k'
  by_cases h : k' = k
  · subst h
    rw [hfree.writes_ne ht]
    simp [put, writes, ht.symm]
  · simp [put, writes, Function.update_of_ne h]

/-- `UPDATE … SET f WHERE key = k AND p` by transaction `t`: undefined while another transaction
holds the row, otherwise the table after the statement and whether the row matched. A row another
transaction has inserted but not committed is not there to be matched. -/
def update (s : RowStore τ κ ρ) (t : τ) (k : κ) (p : ρ → Bool) (f : ρ → ρ) :
    Option (RowStore τ κ ρ × Bool) :=
  if s.Free t k then
    match s.view t k with
    | some r => if p r then some (s.put t k (f r), true) else some (s, false)
    | none => some (s, false)
  else if s.committed k = none then some (s, false)
  else none

/-- What an `UPDATE` statement can do. -/
theorem update_cases {s s' : RowStore τ κ ρ} {t : τ} {k : κ} {p : ρ → Bool} {f : ρ → ρ} {b : Bool}
    (h : s.update t k p f = some (s', b)) :
    (b = true ∧ s.Free t k ∧ ∃ r, s.view t k = some r ∧ p r = true ∧ s' = s.put t k (f r)) ∨
    (b = false ∧ s' = s ∧ ∀ r, s.view t k = some r → s.committed k ≠ none →
      s.Free t k ∧ p r = false) := by
  unfold update at h
  split at h
  · next hfree =>
    split at h
    · next r hr =>
      split at h
      · next hp =>
        cases h
        exact .inl ⟨rfl, hfree, r, hr, hp, rfl⟩
      · next hp =>
        cases h
        refine .inr ⟨rfl, rfl, fun r' hr' _ => ⟨hfree, ?_⟩⟩
        cases hr.symm.trans hr'
        simpa using hp
    · next hr =>
      cases h
      exact .inr ⟨rfl, rfl, fun r' hr' => absurd (hr.symm.trans hr') (by simp)⟩
  · split at h
    · next hc =>
      cases h
      exact .inr ⟨rfl, rfl, fun _ _ hne => absurd hc hne⟩
    · cases h

/-- An `UPDATE` of a row the transaction already holds. -/
theorem update_own {s : RowStore τ κ ρ} {t : τ} {k : κ} {p : ρ → Bool} {f : ρ → ρ} {r : ρ}
    (h : s.writes t k = some r) (hp : p r = true) :
    s.Free t k ∧ s.update t k p f = some (s.put t k (f r), true) := by
  have hfree : s.Free t k := by
    intro q hq
    rw [writes_eq_some.1 h] at hq
    cases hq
    rfl
  refine ⟨hfree, ?_⟩
  simp [update, hfree, view, h, hp]

/-- `INSERT` of a row under a fresh key by transaction `t`; undefined on a key that exists. -/
def insert (s : RowStore τ κ ρ) (t : τ) (k : κ) (r : ρ) : Option (RowStore τ κ ρ) :=
  if (s.cell k).committed.isNone ∧ (s.cell k).uncommitted.isNone then some (s.put t k r) else none

omit [DecidableEq τ] in
/-- Whether an `INSERT` goes through is a matter of the key alone. -/
theorem isSome_insert {s : RowStore τ κ ρ} {t : τ} {k : κ} {r : ρ} :
    (s.insert t k r).isSome ↔
      (s.cell k).committed.isNone ∧ (s.cell k).uncommitted.isNone := by
  unfold insert
  split
  · next h => exact iff_of_true rfl h
  · next h => exact iff_of_false (by simp) h

theorem insert_eq_some {s s' : RowStore τ κ ρ} {t : τ} {k : κ} {r : ρ}
    (h : s.insert t k r = some s') :
    s.committed k = none ∧ (∀ t', s.writes t' k = none) ∧ s.Free t k ∧ s' = s.put t k r := by
  unfold insert at h
  split at h
  · next hk =>
    cases h
    have hu : (s.cell k).uncommitted = none := by simpa using hk.2
    refine ⟨by simpa [committed] using hk.1, fun t' => ?_, fun p hp => ?_, rfl⟩
    · simp [writes, hu]
    · rw [hu] at hp
      cases hp
  · cases h

/-- An `UPDATE` of a free row does not block. -/
theorem update_isSome {s : RowStore τ κ ρ} {t : τ} {k : κ} (p : ρ → Bool) (f : ρ → ρ)
    (h : s.Free t k) : (s.update t k p f).isSome := by
  unfold update
  rw [if_pos h]
  split
  · split <;> rfl
  · rfl

omit [DecidableEq τ] in
/-- There is always a fresh key. -/
theorem exists_insert [Infinite κ] (s : RowStore τ κ ρ) (t : τ) :
    ∃ k, ∀ r, (s.insert t k r).isSome := by
  obtain ⟨k, hk⟩ := Infinite.exists_notMem_finset s.keys.toFinset
  refine ⟨k, fun r => ?_⟩
  rw [insert, s.absent k fun hmem => hk (List.mem_toFinset.2 hmem)]
  rfl

/-! ## Coherence of a table, and what one transaction sees of another -/

section Coherence

variable {ι : Type*} (key : ρ → κ) (ident : ρ → ι)

/-- Rows sit under their own key, and an uncommitted version of a committed row agrees with it on
`ident`, the columns no `UPDATE` sets. -/
structure Coherent (s : RowStore τ κ ρ) : Prop where
  committed_key : ∀ {k r}, s.committed k = some r → key r = k
  writes_key : ∀ {t k r}, s.writes t k = some r → key r = k
  writes_ident : ∀ {t k r r₀}, s.writes t k = some r → s.committed k = some r₀ →
    ident r = ident r₀

/-- What transaction `t` can rely on while others take the table from `s` to `s'`: its uncommitted
rows are left alone, so is the committed version of every row it holds, and committed rows stay
and keep `ident`. -/
structure Rely (t : τ) (s s' : RowStore τ κ ρ) : Prop where
  writes : s'.writes t = s.writes t
  held : ∀ {k}, (s.writes t k).isSome → s'.committed k = s.committed k
  kept : ∀ {k r}, s.committed k = some r → ∃ r', s'.committed k = some r' ∧ ident r' = ident r

variable {key ident} {s s' s'' : RowStore τ κ ρ} {t i : τ}

omit [DecidableEq κ] in
theorem Coherent.empty : Coherent key ident (empty : RowStore τ κ ρ) := by
  constructor <;> simp

theorem Coherent.put (h : Coherent key ident s) {k : κ} {r : ρ} (hfree : s.Free i k)
    (hkey : key r = k) (hident : ∀ r₀, s.committed k = some r₀ → ident r = ident r₀) :
    Coherent key ident (s.put i k r) := by
  have hw : ∀ {t k' r'}, (s.put i k r).writes t k' = some r' →
      (k' = k ∧ r' = r) ∨ s.writes t k' = some r' := by
    intro t k' r' hr'
    by_cases ht : t = i
    · subst ht
      rw [writes_put_self] at hr'
      by_cases hk : k' = k
      · subst hk
        rw [Function.update_self] at hr'
        exact .inl ⟨rfl, (Option.some.inj hr').symm⟩
      · rw [Function.update_of_ne hk] at hr'
        exact .inr hr'
    · rw [writes_put_ne hfree ht] at hr'
      exact .inr hr'
  refine ⟨fun hc => h.committed_key (by simpa using hc), fun hr' => ?_, fun hr' hc => ?_⟩
  · rcases hw hr' with ⟨rfl, rfl⟩ | hr'
    · exact hkey
    · exact h.writes_key hr'
  · rw [committed_put] at hc
    rcases hw hr' with ⟨rfl, rfl⟩ | hr'
    · exact hident _ hc
    · exact h.writes_ident hr' hc

omit [DecidableEq κ] in
theorem Coherent.commit (h : Coherent key ident s) (i : τ) : Coherent key ident (s.commit i) := by
  have hw : ∀ {t k r}, (s.commit i).writes t k = some r → t ≠ i ∧ s.writes t k = some r := by
    intro t k r hr
    by_cases ht : t = i
    · subst ht
      simp at hr
    · rw [writes_commit_ne s ht] at hr
      exact ⟨ht, hr⟩
  refine ⟨fun hc => ?_, fun hr => h.writes_key (hw hr).2, fun hr hc => ?_⟩
  · rw [committed_commit, Option.or_eq_some_iff] at hc
    rcases hc with hc | ⟨-, hc⟩
    · exact h.writes_key hc
    · exact h.committed_key hc
  · rw [committed_commit, Option.or_eq_some_iff] at hc
    rcases hc with hc | ⟨-, hc⟩
    · exact absurd (exclusive (hw hr).2 hc) (hw hr).1
    · exact h.writes_ident (hw hr).2 hc

omit [DecidableEq κ] in
theorem Coherent.rollback (h : Coherent key ident s) (i : τ) :
    Coherent key ident (s.rollback i) := by
  have hw : ∀ {t k r}, (s.rollback i).writes t k = some r → s.writes t k = some r := by
    intro t k r hr
    by_cases ht : t = i
    · subst ht
      simp at hr
    · rwa [writes_rollback_ne s ht] at hr
  refine ⟨fun hc => h.committed_key (by simpa using hc), fun hr => h.writes_key (hw hr),
    fun hr hc => h.writes_ident (hw hr) (by simpa using hc)⟩

omit [DecidableEq κ] in
theorem Rely.refl (t : τ) (s : RowStore τ κ ρ) : Rely ident t s s :=
  ⟨rfl, fun _ => rfl, fun h => ⟨_, h, rfl⟩⟩

omit [DecidableEq κ] in
theorem Rely.trans (h : Rely ident t s s') (h' : Rely ident t s' s'') : Rely ident t s s'' where
  writes := h'.writes.trans h.writes
  held hk := (h'.held (by rw [h.writes]; exact hk)).trans (h.held hk)
  kept hk := by
    obtain ⟨r₁, h₁, e₁⟩ := h.kept hk
    obtain ⟨r₂, h₂, e₂⟩ := h'.kept h₁
    exact ⟨r₂, h₂, e₂.trans e₁⟩

theorem Rely.put {k : κ} {r : ρ} (hfree : s.Free i k) (ht : t ≠ i) :
    Rely ident t s (s.put i k r) :=
  ⟨writes_put_ne hfree ht, fun _ => by simp, fun h => ⟨_, by simpa using h, rfl⟩⟩

omit [DecidableEq κ] in
theorem Rely.commit (h : Coherent key ident s) (ht : t ≠ i) : Rely ident t s (s.commit i) where
  writes := writes_commit_ne s ht
  held {k} hk := by
    obtain ⟨r, hr⟩ := Option.isSome_iff_exists.1 hk
    rw [committed_commit]
    cases hi : s.writes i k with
    | none => rfl
    | some r' => exact absurd (exclusive hr hi) ht
  kept {k r} hr := by
    rw [committed_commit]
    cases hi : s.writes i k with
    | none => exact ⟨r, by simpa using hr, rfl⟩
    | some r' => exact ⟨r', rfl, h.writes_ident hi hr⟩

omit [DecidableEq κ] in
theorem Rely.rollback (ht : t ≠ i) : Rely ident t s (s.rollback i) :=
  ⟨writes_rollback_ne s ht, fun _ => by simp, fun h => ⟨_, by simpa using h, rfl⟩⟩

end Coherence

/-! ## Every version of every row -/

/-- Every version of every row, committed or not, is in `P`. -/
structure All (s : RowStore τ κ ρ) (P : ρ → Prop) : Prop where
  committed : ∀ {k r}, s.committed k = some r → P r
  writes : ∀ {t k r}, s.writes t k = some r → P r

namespace All

variable {P : ρ → Prop} {s s' : RowStore τ κ ρ} {t : τ} {k : κ} {r : ρ}

omit [DecidableEq κ]

theorem empty : (empty : RowStore τ κ ρ).All P :=
  ⟨fun h => by simp at h, fun h => by simp at h⟩

theorem mono {Q : ρ → Prop} (h : s.All P) (hPQ : ∀ r, P r → Q r) : s.All Q :=
  ⟨fun hc => hPQ _ (h.committed hc), fun hw => hPQ _ (h.writes hw)⟩

theorem view (h : s.All P) (hr : s.view t k = some r) : P r := by
  rcases Option.or_eq_some_iff.1 hr with hw | ⟨-, hc⟩
  · exact h.writes hw
  · exact h.committed hc

theorem commit (h : s.All P) (t : τ) : (s.commit t).All P where
  committed hc := by
    rw [committed_commit, Option.or_eq_some_iff] at hc
    rcases hc with hw | ⟨-, hc⟩
    · exact h.writes hw
    · exact h.committed hc
  writes {t' k r} hw := by
    by_cases ht : t' = t
    · subst ht
      simp at hw
    · rw [writes_commit_ne s ht] at hw
      exact h.writes hw

theorem rollback (h : s.All P) (t : τ) : (s.rollback t).All P where
  committed hc := by
    rw [committed_rollback] at hc
    exact h.committed hc
  writes {t' k r} hw := by
    by_cases ht : t' = t
    · subst ht
      simp at hw
    · rw [writes_rollback_ne s ht] at hw
      exact h.writes hw

variable [DecidableEq κ]

theorem put (h : s.All P) (hr : P r) : (s.put t k r).All P where
  committed hc := by
    rw [committed_put] at hc
    exact h.committed hc
  writes {t' k' r'} hw := by
    rw [writes_eq_some] at hw
    by_cases hk : k' = k
    · subst hk
      simp only [RowStore.put, Function.update_self, Option.some.injEq, Prod.mk.injEq] at hw
      exact hw.2 ▸ hr
    · simp only [RowStore.put, Function.update_of_ne hk] at hw
      exact h.writes (writes_eq_some.2 hw)

/-- An `UPDATE` that keeps `P` row by row. -/
theorem update {p : ρ → Bool} {f : ρ → ρ} {b : Bool} (h : s.All P) (hf : ∀ r, P r → P (f r))
    (hu : s.update t k p f = some (s', b)) : s'.All P := by
  rcases update_cases hu with ⟨-, -, r, hr, -, rfl⟩ | ⟨-, rfl, -⟩
  · exact h.put (hf r (h.view hr))
  · exact h

end All

end Transactions

end RowStore

end Foundation
