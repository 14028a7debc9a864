import PaymentsLab.Api.SequentialCreation

/-!
# The velocity check as a sliding window

Calls of `_enforce_velocity_limit` for one customer and rail, one after the other, with Redis
available. The sorted set holds one member for each admitted call of the window: members differ
although their readings may be equal, the pruning is the window's own bound, and the key outlives
its last member (`WindowKept`). So the check is an exact sliding window (`exact_window`).
-/

namespace PaymentsLab

open Foundation Program ApiProgram Redis

namespace VelocityWindow

/-- A call that has been made: its reading of the clock, and its outcome. -/
abbrev Call : Type := Instant × Except ApiException Int

def Call.admitted (call : Call) : Bool :=
  match call.2 with
  | .ok _ => true
  | .error _ => false

/-- The readings of the admitted calls later than a time, the last one first. -/
def admittedAfter (calls : List Call) (since : Instant) : List Instant :=
  (calls.filter fun call => call.admitted ∧ since < call.1).map Prod.fst

/-- The window of a policy, in microseconds. -/
def windowMicros (policy : LimitsPolicy) : Int :=
  policy.velocityWindowSeconds * 1000000

/-- Redis answers every command of the call, the clock does not go back, and the key does not expire
while the call runs. -/
structure Timely (key : String) (b : Backend) (is : Nat → ApiInput) : Prop where
  answered : ∀ n, (is n).redis = .answered
  reading_le : ∀ n, (is 0).now ≤ (is n).now
  live : ∀ e ∈ b.redis key, e.Live (is 0).now → ∀ n, e.Live (is n).now

/-- Calls one after the other at times that do not decrease, the last one first, and what they leave
behind. -/
inductive Calls (customerId : String) (rail : PaymentMethod) (policy : LimitsPolicy)
    (b₀ : Backend) : List Call → Backend → Prop
  | nil : Calls customerId rail policy b₀ [] b₀
  | call {calls : List Call} {b : Backend} {is : Nat → ApiInput}
    (before : Calls customerId rail policy b₀ calls b)
    (timely : Timely (limitsVelocityKey customerId rail) b is) (epoch : 0 ≤ (is 0).now)
    (later : ∀ call ∈ calls, call.1 ≤ (is 0).now) :
    Calls customerId rail policy b₀
      (((is 0).now, ((LimitsService.enforceVelocityLimit customerId rail policy).run
        Backend.handler b is).outcome) :: calls)
      ((LimitsService.enforceVelocityLimit customerId rail policy).run Backend.handler b is).world

/-! ## The members of the window -/

theorem admittedAfter_filter (calls : List Call) {since since' : Instant} (h : since ≤ since') :
    (admittedAfter calls since).filter (since' < ·) = admittedAfter calls since' := by
  unfold admittedAfter
  rw [List.filter_map, List.filter_filter]
  congr 1
  refine List.filter_congr fun call _ => ?_
  have hle (hlt : since' < call.1) : since < call.1 := Int.lt_of_le_of_lt h hlt
  by_cases hlt : since' < call.1 <;> simp [hlt, hle]

/-- The members are those of the admitted calls after a time, under different names, and the key
outlives them. -/
structure WindowKept (policy : LimitsPolicy) (calls : List Call) (last : Instant)
    (members : List (StoredText × Int)) (expiresAt : Option Int) : Prop where
  scores : members.map Prod.snd = admittedAfter calls (last - windowMicros policy)
  epoch : ∀ m ∈ members, 0 ≤ m.2 ∧ m.2 ≤ last
  /-- a member of the last reading has a number below the size of the set -/
  named : ∀ m ∈ members, ∃ k, m.1 = .velocityMember m.2 k ∧ (m.2 = last → k < members.length)
  outlived : ∀ m ∈ members, ∀ t ∈ expiresAt, m.2 + windowMicros policy ≤ t

namespace WindowKept

variable {policy : LimitsPolicy} {calls : List Call} {last t : Instant}
  {members : List (StoredText × Int)} {expiresAt : Option Int}

theorem nil (policy : LimitsPolicy) (last : Instant) (expiresAt : Option Int) :
    WindowKept policy [] last [] expiresAt where
  scores := rfl
  epoch _ hm := absurd hm List.not_mem_nil
  named _ hm := absurd hm List.not_mem_nil
  outlived _ hm := absurd hm List.not_mem_nil

theorem score_mem (h : WindowKept policy calls last members expiresAt) {m : StoredText × Int}
    (hm : m ∈ members) : last - windowMicros policy < m.2 := by
  have hscore : m.2 ∈ admittedAfter calls (last - windowMicros policy) :=
    h.scores ▸ List.mem_map_of_mem hm
  obtain ⟨call, hcall, heq⟩ := List.mem_map.1 hscore
  have hlater := (List.mem_filter.1 hcall).2
  simp only [decide_eq_true_eq] at hlater
  exact heq ▸ hlater.2

/-- A later reading of the clock prunes the members that have left the window, and no other. -/
theorem prune (h : WindowKept policy calls last members expiresAt) (hle : last ≤ t)
    {expiresAt' : Option Int} (hexpiresAt : ∀ e ∈ expiresAt', e ∈ expiresAt) :
    WindowKept policy calls t (members.filter fun m => t - windowMicros policy < m.2)
      expiresAt' where
  scores := by
    have hcutoff : last - windowMicros policy ≤ t - windowMicros policy :=
      Int.sub_le_sub_right hle _
    rw [← admittedAfter_filter calls hcutoff, ← h.scores, List.filter_map]
    rfl
  epoch m hm := by
    obtain ⟨hnonneg, hm⟩ := h.epoch m (List.mem_of_mem_filter hm)
    exact ⟨hnonneg, Int.le_trans hm hle⟩
  named m hm := by
    have hmem := List.mem_of_mem_filter hm
    obtain ⟨k, hname, hk⟩ := h.named m hmem
    refine ⟨k, hname, fun heq => ?_⟩
    -- a member of this reading is one of the last reading: nothing has left the window
    obtain rfl : t = last := Int.le_antisymm (heq ▸ (h.epoch m hmem).2) hle
    have hall : (members.filter fun m => t - windowMicros policy < m.2) = members := by
      refine List.filter_eq_self.2 fun m hm => decide_eq_true (h.score_mem hm)
    rw [hall]
    exact hk heq
  outlived m hm e he := h.outlived m (List.mem_of_mem_filter hm) e (hexpiresAt e he)

/-- Where the key has expired, every member has left the window. -/
theorem expired (h : WindowKept policy calls last members expiresAt) (hdead : ¬ Lives expiresAt t) :
    (members.filter fun m => t - windowMicros policy < m.2) = [] := by
  refine List.filter_eq_nil_iff.2 fun m hm => ?_
  simp only [Lives, not_forall] at hdead
  obtain ⟨e, he, hle⟩ := hdead
  have houtlived : m.2 ≤ e - windowMicros policy :=
    Int.le_sub_right_of_add_le (h.outlived m hm e he)
  have hcutoff : e - windowMicros policy ≤ t - windowMicros policy :=
    Int.sub_le_sub_right (Int.not_lt.1 hle) _
  simpa using Int.le_trans houtlived hcutoff

theorem length_eq (h : WindowKept policy calls t members expiresAt) :
    members.length = (admittedAfter calls (t - windowMicros policy)).length := by
  rw [← h.scores, List.length_map]

theorem refused (h : WindowKept policy calls t members expiresAt) (e : ApiException) :
    WindowKept policy ((t, .error e) :: calls) t members expiresAt where
  scores := by
    rw [h.scores]
    simp [admittedAfter, Call.admitted]
  epoch := h.epoch
  named := h.named
  outlived := h.outlived

/-- The member of an admitted call is a new one. -/
theorem insertMember_eq (h : WindowKept policy calls t members expiresAt) :
    insertMember (.velocityMember t members.length) t members =
      (.velocityMember t members.length, t) :: members := by
  unfold insertMember
  congr 1
  refine List.filter_eq_self.2 fun m hm => decide_eq_true fun heq => ?_
  obtain ⟨k, hname, hk⟩ := h.named m hm
  rw [hname, StoredText.velocityMember.injEq] at heq
  have := hk heq.1
  omega

theorem admitted (h : WindowKept policy calls t members expiresAt)
    (hwindow : 0 < policy.velocityWindowSeconds) (ht : 0 ≤ t) (n : Int) {e : Int}
    (he : t + windowMicros policy ≤ e) :
    WindowKept policy ((t, .ok n) :: calls) t ((.velocityMember t members.length, t) :: members)
      (some e) where
  scores := by
    have hin : t - windowMicros policy < t :=
      Int.sub_lt_self t (Int.mul_pos hwindow (by decide))
    rw [List.map_cons, h.scores]
    simp [admittedAfter, Call.admitted, hin]
  epoch m hm := by
    rcases List.mem_cons.1 hm with rfl | hm
    · exact ⟨ht, Int.le_refl t⟩
    · exact h.epoch m hm
  named m hm := by
    rcases List.mem_cons.1 hm with rfl | hm
    · exact ⟨members.length, rfl, fun _ => by simp⟩
    · obtain ⟨k, hname, hk⟩ := h.named m hm
      refine ⟨k, hname, fun heq => ?_⟩
      have := hk heq
      simp only [List.length_cons]
      omega
  outlived m hm e' he' := by
    cases he'
    rcases List.mem_cons.1 hm with rfl | hm
    · exact he
    · exact Int.le_trans (Int.add_le_add_right (h.epoch m hm).2 _) he

end WindowKept

/-- An empty set has no time to live. -/
theorem WindowKept.normalize {policy : LimitsPolicy} {key : String} {calls : List Call}
    {last : Instant} {members : List (StoredText × Int)} {expiresAt : Option Int}
    {s : Redis.Store StoredText} (h : WindowKept policy calls last members expiresAt)
    (hset : s.HoldsMembers key members expiresAt) :
    ∃ expiresAt', s.HoldsMembers key members expiresAt' ∧
      WindowKept policy calls last members expiresAt' ∧ (members = [] → expiresAt' = none) := by
  by_cases hmembers : members = []
  · subst hmembers
    exact ⟨none, .empty (by simpa [Store.HoldsMembers] using hset) none,
      ⟨h.scores, h.epoch, h.named, fun _ hm => absurd hm List.not_mem_nil⟩, fun _ => rfl⟩
  · exact ⟨expiresAt, hset, h, fun h => absurd h hmembers⟩

/-! ## The check -/

/-- The exact decision on a call with so many admitted calls in its window. -/
def Decided (policy : LimitsPolicy) (rail : PaymentMethod) (n : Nat)
    (o : Except ApiException Int) : Prop :=
  ((n : Int) < policy.velocityLimitCount → o = .ok (n + 1)) ∧
    (policy.velocityLimitCount ≤ n → o = .error (.app (.limitExceeded
      ("Velocity limit exceeded for rail " ++ rail.value))))

/-- A command of a call that has read `t`. -/
def During (expiresAt : Option Int) (t : Instant) (i : ApiInput) : Prop :=
  i.redis = .answered ∧ t ≤ i.now ∧ (Lives expiresAt t → Lives expiresAt i.now)

/-- What a call leaves behind. -/
def Leaves (policy : LimitsPolicy) (key : String) (calls : List Call) (b : Backend) : Prop :=
  ∃ members expiresAt, b.redis.HoldsMembers key members expiresAt ∧
    WindowKept policy calls ((calls.head?.map Prod.fst).getD 0) members expiresAt

section Check

variable {policy : LimitsPolicy} {rail : PaymentMethod} {key : String} {calls : List Call}
  {last t : Instant} {members : List (StoredText × Int)} {expiresAt : Option Int} {b : Backend}

/-- The pruning of a call. -/
theorem pruned (h : WindowKept policy calls last members expiresAt) (hle : last ≤ t)
    (hset : b.redis.HoldsMembers key members expiresAt) {i : ApiInput}
    (hi : During expiresAt t i) :
    ∃ s members' expiresAt',
      Redis.exec i.now b.redis (.zremrangebyscore key 0 (t - windowMicros policy)) =
        some ((), s) ∧ s.HoldsMembers key members' expiresAt' ∧
      WindowKept policy calls t members' expiresAt' ∧
      ∀ i', During expiresAt t i' → Lives expiresAt' i'.now := by
  have hfilter : (members.filter fun m => m.2 < 0 ∨ t - windowMicros policy < m.2) =
      members.filter fun m => t - windowMicros policy < m.2 := by
    refine List.filter_congr fun m hm => ?_
    have hnonneg : ¬ m.2 < 0 := Int.not_lt.2 (h.epoch m hm).1
    simp [hnonneg]
  by_cases hlive : Lives expiresAt t
  · obtain ⟨s, hexec, hs⟩ := hset.zremrangebyscore (hi.2.2 hlive) 0 (t - windowMicros policy)
    refine ⟨s, _, _, hexec, hfilter ▸ hs, h.prune hle fun e he => ?_, fun i' hi' => ?_⟩
    · split at he
      · cases he
      · exact he
    · split
      · exact fun e he => by cases he
      · exact hi'.2.2 hlive
  · have hdead : ¬ Lives expiresAt i.now := fun hlives =>
      hlive fun e he => Int.lt_of_le_of_lt hi.2.1 (hlives e he)
    obtain ⟨s, hexec, hs⟩ :=
      hset.zremrangebyscore_of_not_lives hdead 0 (t - windowMicros policy)
    have hempty := h.prune hle fun e (he : e ∈ (none : Option Int)) => by cases he
    rw [h.expired hlive] at hempty
    exact ⟨s, [], none, hexec, hs, hempty, fun i' _ e he => by cases he⟩

theorem ensures_countVelocity (h : WindowKept policy calls last members expiresAt) (hle : last ≤ t)
    (ht : 0 ≤ t) (hwindow : 0 < policy.velocityWindowSeconds)
    (hset : b.redis.HoldsMembers key members expiresAt) :
    (LimitsService.countVelocity t key rail policy).Ensures Backend.handler
      (fun i _ _ => During expiresAt t i)
      (fun o b' =>
        Decided policy rail (admittedAfter calls (t - windowMicros policy)).length o ∧
          Leaves policy key ((t, o) :: calls) b') b := by
  unfold LimitsService.countVelocity
  refine ensures_bind.2 ((@ensures_redis _ _ (.zremrangebyscore key 0 _) _).2 fun i hi => ?_)
  obtain ⟨s, members', expiresAt', hexec, hset', h', hlives⟩ := pruned h hle hset hi
  have hprune := Backend.execRedis_answered hi.1 hexec
  simp only [windowMicros] at hprune
  simp only [hprune, Option.elim_some]
  refine ensures_bind.2 ((@ensures_redis _ _ (.zcard key) _).2 fun i₁ hi₁ => ?_)
  have hcard := Backend.execRedis_answered (b := { b with redis := s }) hi₁.1
    (hset'.zcard (hlives i₁ hi₁))
  simp only [hcard, Option.elim_some]
  rw [← h'.length_eq]
  by_cases hlimit : policy.velocityLimitCount ≤ (members'.length : Int)
  · rw [if_pos hlimit]
    exact ⟨⟨fun hlt => absurd hlimit (Int.not_le.2 hlt), fun _ => rfl⟩, members', expiresAt',
      hset', h'.refused _⟩
  · rw [if_neg hlimit]
    refine ensures_bind.2 ((@ensures_redis _ _ (.zadd key _ t) _).2 fun i₂ hi₂ => ?_)
    obtain ⟨s₂, hadd, hset₂⟩ := hset'.zadd (hlives i₂ hi₂)
      (.velocityMember t members'.length) t
    simp only [Backend.execRedis_answered (b := { b with redis := s }) hi₂.1 hadd, Option.elim_some]
    rw [h'.insertMember_eq] at hset₂
    refine ensures_bind.2 ((@ensures_redis _ _ (.expire key _) _).2 fun i₃ hi₃ => ?_)
    have hlives₃ : Lives (if members' = [] then none else expiresAt') i₃.now := by
      split
      · exact fun e he => by cases he
      · exact hlives i₃ hi₃
    obtain ⟨s₃, hexpire, hset₃⟩ := hset₂.expire hlives₃ (List.cons_ne_nil _ _)
      policy.velocityWindowSeconds
    simp only [Backend.execRedis_answered (b := { b with redis := s₂ }) hi₃.1 hexpire,
      Option.elim_some]
    refine ⟨⟨fun _ => rfl, fun hle => absurd hle hlimit⟩, _, _, hset₃, ?_⟩
    exact h'.admitted hwindow ht _ (Int.add_le_add_right hi₃.2.1 _)

/-- A call decides by the window before its reading. -/
theorem run_enforceVelocityLimit {customerId : String} {is : Nat → ApiInput}
    (h : WindowKept policy calls last members expiresAt) (hle : last ≤ (is 0).now)
    (ht : 0 ≤ (is 0).now) (hwindow : 0 < policy.velocityWindowSeconds)
    (hset : b.redis.HoldsMembers (limitsVelocityKey customerId rail) members expiresAt)
    (hduring : ∀ n, During expiresAt (is 0).now (is n)) :
    let run := (LimitsService.enforceVelocityLimit customerId rail policy).run Backend.handler b is
    Decided policy rail
        (admittedAfter calls ((is 0).now - windowMicros policy)).length run.outcome ∧
      Leaves policy (limitsVelocityKey customerId rail) (((is 0).now, run.outcome) :: calls)
        run.world := by
  refine @Ensures.run _ _ _ _ _ _ Backend.handler (fun i _ _ => During expiresAt (is 0).now i)
    (fun o b' => Decided policy rail
      (admittedAfter calls ((is 0).now - windowMicros policy)).length o ∧
        Leaves policy (limitsVelocityKey customerId rail) (((is 0).now, o) :: calls) b')
    _ b (fun n => is (n + 1)) ?_ (.of_forall fun n => hduring (n + 1))
  refine ensures_tryCatch.2 ((ensures_countVelocity h hle ht hwindow hset).mono fun o b' ho => ?_)
  cases o with
  | ok n => exact ho
  | error e =>
    rcases Int.lt_or_le ((admittedAfter calls ((is 0).now - windowMicros policy)).length : Int)
      policy.velocityLimitCount with hlt | hge
    · cases ho.1.1 hlt
    · cases ho.1.2 hge
      exact ho

end Check

/-! ## Sequences of calls -/

/-- The exact sliding window: every call is decided by the admitted calls in the window before it,
and at any time after the last call the set holds one member for each admitted call in the
window. -/
structure ExactWindow (policy : LimitsPolicy) (rail : PaymentMethod) (key : String)
    (calls : List Call) (b : Backend) : Prop where
  decided : ∀ later earlier call, calls = later ++ call :: earlier →
    Decided policy rail (admittedAfter earlier (call.1 - windowMicros policy)).length call.2
  kept : ∀ now, (∀ call ∈ calls, call.1 ≤ now) → 0 ≤ now →
    ∃ members, b.redis.sortedSet? now key = some members ∧
      (members.map Prod.snd).filter (now - windowMicros policy < ·) =
        admittedAfter calls (now - windowMicros policy)

/-- The velocity check is an exact sliding window over every sequence of calls of a customer on a
rail, if Redis is available and no key expires while a call runs. -/
theorem exact_window {customerId : String} {rail : PaymentMethod} {policy : LimitsPolicy}
    {b₀ b : Backend} {calls : List Call} (hwindow : 0 < policy.velocityWindowSeconds)
    (hfresh : b₀.redis (limitsVelocityKey customerId rail) = none)
    (hcalls : Calls customerId rail policy b₀ calls b) :
    ExactWindow policy rail (limitsVelocityKey customerId rail) calls b := by
  have hlast {calls : List Call} {now : Instant} (hlater : ∀ call ∈ calls, call.1 ≤ now)
      (hnow : 0 ≤ now) : (calls.head?.map Prod.fst).getD 0 ≤ now := by
    cases calls with
    | nil => exact hnow
    | cons call calls => exact hlater call List.mem_cons_self
  have hrun : (∀ later earlier call, calls = later ++ call :: earlier →
      Decided policy rail (admittedAfter earlier (call.1 - windowMicros policy)).length call.2) ∧
      Leaves policy (limitsVelocityKey customerId rail) calls b := by
    induction hcalls with
    | nil =>
      refine ⟨fun later earlier call heq => ?_, [], none, .empty hfresh none, .nil policy _ none⟩
      cases later <;> cases heq
    | @call calls b is before timely epoch later ih =>
      obtain ⟨hdecided, members, _, hset, hkept⟩ := ih
      obtain ⟨expiresAt, hset, hkept, hempty⟩ := hkept.normalize hset
      have hduring (n : Nat) : During expiresAt (is 0).now (is n) := by
        refine ⟨timely.answered n, timely.reading_le n, fun hlive => ?_⟩
        by_cases hmembers : members = []
        · rw [hempty hmembers]
          exact fun t ht => by cases ht
        · exact timely.live ⟨.sortedSet members, expiresAt⟩ (by rw [hset, if_neg hmembers]; rfl)
            hlive n
      obtain ⟨hnew, hleaves⟩ :=
        run_enforceVelocityLimit hkept (hlast later epoch) epoch hwindow hset hduring
      refine ⟨fun later' earlier call heq => ?_, hleaves⟩
      cases later' with
      | nil =>
        cases heq
        exact hnew
      | cons first later' =>
        cases heq
        exact hdecided later' earlier call rfl
  refine ⟨hrun.1, fun now hnow hepoch => ?_⟩
  obtain ⟨members, expiresAt, hset, hkept⟩ := hrun.2
  have hcutoff : (calls.head?.map Prod.fst).getD 0 - windowMicros policy ≤
      now - windowMicros policy := Int.sub_le_sub_right (hlast hnow hepoch) _
  by_cases hlive : Lives expiresAt now
  · refine ⟨members, hset.sortedSet? hlive, ?_⟩
    rw [hkept.scores, admittedAfter_filter calls hcutoff]
  · refine ⟨[], hset.sortedSet?_of_not_lives hlive, ?_⟩
    show [] = _
    rw [← admittedAfter_filter calls hcutoff, ← hkept.scores, List.filter_map]
    exact (congrArg (List.map Prod.snd) (hkept.expired hlive)).symm

/-! ## Calls at one instant -/

/-- A call all of whose commands run at its reading. -/
def instantly (t : Instant) : Nat → ApiInput :=
  fun _ => ⟨t, .answered, 0⟩

theorem timely_instantly (key : String) (b : Backend) (t : Instant) :
    Timely key b (instantly t) where
  answered _ := rfl
  reading_le _ := Int.le_refl t
  live _ _ hlive _ := hlive

/-- Two calls in a minute. -/
def samplePolicy : LimitsPolicy where
  rail := .pix
  minAmount := ⟨1, -2⟩
  maxAmount := ⟨10000, -2⟩
  dailyLimitAmount := ⟨10000, -2⟩
  velocityLimitCount := 2
  velocityWindowSeconds := 60

def sample : Backend :=
  ⟨⟨[], [], [], [], []⟩, fun _ => none⟩

/-- Three calls with one reading, and a fourth one when they have left the window. -/
theorem exact_window_equal_readings : ∃ calls b, Calls "c" .pix samplePolicy sample calls b ∧
    calls.map (fun call => (call.1, call.admitted)) =
      [(60000000, true), (0, false), (0, true), (0, true)] ∧
    ExactWindow samplePolicy .pix (limitsVelocityKey "c" .pix) calls b := by
  have h₁ := Calls.call (.nil : Calls "c" .pix samplePolicy sample [] sample)
    (timely_instantly _ _ 0) (Int.le_refl 0) (by simp)
  have h₂ := h₁.call (timely_instantly _ _ 0) (Int.le_refl 0) (by simp [instantly])
  have h₃ := h₂.call (timely_instantly _ _ 0) (Int.le_refl 0) (by simp [instantly])
  have h₄ := h₃.call (timely_instantly _ _ 60000000) (by decide) (by simp [instantly])
  exact ⟨_, _, h₄, by decide +kernel, exact_window (by decide) rfl h₄⟩

end VelocityWindow

end PaymentsLab
