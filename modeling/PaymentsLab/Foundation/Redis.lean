import Mathlib.Logic.Function.Basic

/-!
# A key-value store with expiry

The Redis commands of strings, sorted sets and lists. Values are over an arbitrary type `υ` of
texts, of which only `INCR` needs to know the integers; times are in microseconds. A key whose time
to live has ended is absent. `exec` is undefined on a key that holds a value of another type, where
Redis replies with an error. `exec_of_not_writes` says which keys a command leaves alone.
-/

namespace Foundation

namespace Redis

/-- Texts some of which are integers. -/
class Text (υ : Type) where
  ofInt : Int → υ
  toInt : υ → Option Int

inductive Value (υ : Type)
  | string (text : υ)
  | sortedSet (members : List (υ × Int))
  | list (items : List υ)
  deriving DecidableEq

structure Entry (υ : Type) where
  value : Value υ
  expiresAt : Option Int
  deriving DecidableEq

variable {υ : Type}

/-- The entry is there at `now`. -/
def Entry.Live (e : Entry υ) (now : Int) : Prop :=
  ∀ t ∈ e.expiresAt, now < t

instance (e : Entry υ) (now : Int) : Decidable (e.Live now) :=
  inferInstanceAs (Decidable (∀ t ∈ e.expiresAt, now < t))

/-- The entries by key, those included whose time to live has ended. -/
abbrev Store (υ : Type) : Type :=
  String → Option (Entry υ)

/-- The entry a command finds. -/
def Store.find (s : Store υ) (now : Int) (key : String) : Option (Entry υ) :=
  (s key).filter fun e => e.Live now

inductive Command (υ : Type)
  | get (key : String)
  | set (key : String) (text : υ) (ex : Int)
  | setNx (key : String) (text : υ) (ex : Int)
  | incr (key : String)
  | expire (key : String) (seconds : Int)
  | zremrangebyscore (key : String) (min max : Int)
  | zcard (key : String)
  | zadd (key : String) (member : υ) (score : Int)
  | lpush (key : String) (text : υ)
  | ltrim (key : String) (start stop : Nat)
  | lrange (key : String) (start stop : Nat)
  deriving DecidableEq

/-- The reply to a command. -/
abbrev Reply : Command υ → Type
  | .get _ => Option υ
  | .set _ _ _ => Unit
  | .setNx _ _ _ => Bool
  | .incr _ => Int
  | .expire _ _ => Unit
  | .zremrangebyscore _ _ _ => Unit
  | .zcard _ => Nat
  | .zadd _ _ _ => Unit
  | .lpush _ _ => Unit
  | .ltrim _ _ _ => Unit
  | .lrange _ _ _ => List υ

/-- The key of a command. -/
def Command.key : Command υ → String
  | .get key => key
  | .set key _ _ => key
  | .setNx key _ _ => key
  | .incr key => key
  | .expire key _ => key
  | .zremrangebyscore key _ _ => key
  | .zcard key => key
  | .zadd key _ _ => key
  | .lpush key _ => key
  | .ltrim key _ _ => key
  | .lrange key _ _ => key

/-- The command can change its key. -/
def Command.writes : Command υ → Bool
  | .get _ => false
  | .zcard _ => false
  | .lrange _ _ _ => false
  | _ => true

section Access

variable (s : Store υ) (now : Int) (key : String)

/-- The string at a key. -/
def Store.string? : Option (Option υ) :=
  match s.find now key with
  | none => some none
  | some ⟨.string text, _⟩ => some (some text)
  | some _ => none

/-- The sorted set at a key. -/
def Store.sortedSet? : Option (List (υ × Int)) :=
  match s.find now key with
  | none => some []
  | some ⟨.sortedSet members, _⟩ => some members
  | some _ => none

/-- The list at a key. -/
def Store.list? : Option (List υ) :=
  match s.find now key with
  | none => some []
  | some ⟨.list items, _⟩ => some items
  | some _ => none

/-- Replaces the value at a key and keeps its time to live. -/
def Store.put (value : Value υ) : Store υ :=
  Function.update s key (some ⟨value, (s.find now key).bind (·.expiresAt)⟩)

/-- Replaces a sorted set; an empty one is no key. -/
def Store.putMembers (members : List (υ × Int)) : Store υ :=
  if members.isEmpty then Function.update s key none else s.put now key (.sortedSet members)

/-- Replaces a list; an empty one is no key. -/
def Store.putItems (items : List υ) : Store υ :=
  if items.isEmpty then Function.update s key none else s.put now key (.list items)

/-- A new string with a time to live. -/
def Store.fresh (text : υ) (ex : Int) : Store υ :=
  Function.update s key (some ⟨.string text, some (now + ex * 1000000)⟩)

end Access

/-- A member with its score, new or in place of its old score. -/
def insertMember [DecidableEq υ] (member : υ) (score : Int) (members : List (υ × Int)) :
    List (υ × Int) :=
  (member, score) :: members.filter fun m => m.1 ≠ member

/-- A command at the server's time `now`. -/
def exec [DecidableEq υ] [Text υ] (now : Int) (s : Store υ) :
    (c : Command υ) → Option (Reply c × Store υ)
  | .get key => (s.string? now key).map fun text => (text, s)
  | .set key text ex => if 0 < ex then some ((), s.fresh now key text ex) else none
  | .setNx key text ex =>
    if 0 < ex then
      if (s.find now key).isSome then some (false, s) else some (true, s.fresh now key text ex)
    else none
  | .incr key =>
    match s.string? now key with
    | some none => some ((1 : Int), s.put now key (.string (Text.ofInt 1)))
    | some (some text) =>
      (Text.toInt text).map fun n => (n + 1, s.put now key (.string (Text.ofInt (n + 1))))
    | none => none
  | .expire key seconds =>
    match s.find now key with
    | none => some ((), s)
    | some e => some ((), Function.update s key (some ⟨e.value, some (now + seconds * 1000000)⟩))
  | .zremrangebyscore key min max =>
    (s.sortedSet? now key).map fun members =>
      ((), s.putMembers now key (members.filter fun m => m.2 < min ∨ max < m.2))
  | .zcard key => (s.sortedSet? now key).map fun members => (members.length, s)
  | .zadd key member score =>
    (s.sortedSet? now key).map fun members =>
      ((), s.putMembers now key (insertMember member score members))
  | .lpush key text =>
    (s.list? now key).map fun items => ((), s.putItems now key (text :: items))
  | .ltrim key start stop =>
    (s.list? now key).map fun items =>
      ((), s.putItems now key ((items.take (stop + 1)).drop start))
  | .lrange key start stop =>
    (s.list? now key).map fun items => ((items.take (stop + 1)).drop start, s)

/-- A key that holds strings of a kind, if any, is read as such. -/
theorem Store.string?_of_forall {s : Store υ} (now : Int) {key : String} {P : υ → Prop}
    (h : ∀ e, s key = some e → ∃ text, e.value = .string text ∧ P text) :
    ∃ text, s.string? now key = some text ∧ ∀ t ∈ text, P t := by
  unfold string?
  cases hfind : s.find now key with
  | none => exact ⟨none, rfl, by simp⟩
  | some e =>
    obtain ⟨hentry, -⟩ := Option.filter_eq_some_iff.1 hfind
    obtain ⟨value, expiresAt⟩ := e
    obtain ⟨text, rfl, htext⟩ := h _ hentry
    exact ⟨some text, rfl, fun t ht => Option.some.inj ht ▸ htext⟩

/-! ## Sorted sets -/

/-- The time to live has not ended at `now`. -/
def Lives (expiresAt : Option Int) (now : Int) : Prop :=
  ∀ t ∈ expiresAt, now < t

instance (expiresAt : Option Int) (now : Int) : Decidable (Lives expiresAt now) :=
  inferInstanceAs (Decidable (∀ t ∈ expiresAt, now < t))

/-- The sorted set at a key, and the end of its time to live; an empty set is no key. -/
def Store.HoldsMembers (s : Store υ) (key : String) (members : List (υ × Int))
    (expiresAt : Option Int) : Prop :=
  s key = if members = [] then none else some ⟨.sortedSet members, expiresAt⟩

namespace Store.HoldsMembers

variable {s : Store υ} {now : Int} {key : String} {members : List (υ × Int)}
  {expiresAt : Option Int}

theorem empty (h : s key = none) (expiresAt : Option Int) : s.HoldsMembers key [] expiresAt := by
  simpa [HoldsMembers] using h

/-- What is found of it. -/
theorem find_eq (h : s.HoldsMembers key members expiresAt) :
    s.find now key =
      if members = [] ∨ ¬ Lives expiresAt now then none
      else some ⟨.sortedSet members, expiresAt⟩ := by
  unfold Store.find
  rw [show s key = _ from h]
  by_cases hmembers : members = []
  · simp [hmembers]
  · by_cases hlive : Lives expiresAt now
    · have hentry : Entry.Live ⟨.sortedSet members, expiresAt⟩ now := hlive
      simp [hmembers, hlive, hentry]
    · have hdead : ¬ Entry.Live ⟨.sortedSet members, expiresAt⟩ now := hlive
      simp [hmembers, hlive, hdead]

/-- It is read while it lives. -/
theorem sortedSet? (h : s.HoldsMembers key members expiresAt) (hlive : Lives expiresAt now) :
    s.sortedSet? now key = some members := by
  unfold Store.sortedSet?
  rw [h.find_eq]
  by_cases hmembers : members = [] <;> simp [hmembers, hlive]

/-- It is empty after its time. -/
theorem sortedSet?_of_not_lives (h : s.HoldsMembers key members expiresAt)
    (hdead : ¬ Lives expiresAt now) : s.sortedSet? now key = some [] := by
  unfold Store.sortedSet?
  rw [h.find_eq]
  simp [hdead]

/-- Other members keep its time to live, if they find it. -/
theorem putMembers (h : s.HoldsMembers key members expiresAt) (hlive : Lives expiresAt now)
    (members' : List (υ × Int)) :
    (s.putMembers now key members').HoldsMembers key members'
      (if members = [] then none else expiresAt) := by
  unfold HoldsMembers Store.putMembers Store.put
  rw [h.find_eq]
  by_cases hmembers : members = [] <;> by_cases hmembers' : members' = [] <;>
    simp [hmembers, hmembers', hlive]

variable [DecidableEq υ] [Text υ]

theorem zcard (h : s.HoldsMembers key members expiresAt) (hlive : Lives expiresAt now) :
    exec now s (.zcard key) = some (members.length, s) := by
  simp only [exec, h.sortedSet? hlive, Option.map_some]

theorem zadd (h : s.HoldsMembers key members expiresAt) (hlive : Lives expiresAt now)
    (member : υ) (score : Int) : ∃ s', exec now s (.zadd key member score) = some ((), s') ∧
      s'.HoldsMembers key (insertMember member score members)
        (if members = [] then none else expiresAt) := by
  refine ⟨_, ?_, h.putMembers hlive _⟩
  simp only [exec, h.sortedSet? hlive, Option.map_some]

theorem zremrangebyscore (h : s.HoldsMembers key members expiresAt) (hlive : Lives expiresAt now)
    (min max : Int) : ∃ s', exec now s (.zremrangebyscore key min max) = some ((), s') ∧
      s'.HoldsMembers key (members.filter fun m => m.2 < min ∨ max < m.2)
        (if members = [] then none else expiresAt) := by
  refine ⟨_, ?_, h.putMembers hlive _⟩
  simp only [exec, h.sortedSet? hlive, Option.map_some]

/-- Pruning a set whose time has ended leaves no key. -/
theorem zremrangebyscore_of_not_lives (h : s.HoldsMembers key members expiresAt)
    (hdead : ¬ Lives expiresAt now) (min max : Int) :
    ∃ s', exec now s (.zremrangebyscore key min max) = some ((), s') ∧
      s'.HoldsMembers key [] none := by
  refine ⟨Function.update s key none, ?_, by simp [HoldsMembers]⟩
  simp [exec, h.sortedSet?_of_not_lives hdead, Store.putMembers]

theorem expire (h : s.HoldsMembers key members expiresAt) (hlive : Lives expiresAt now)
    (hmembers : members ≠ []) (seconds : Int) :
    ∃ s', exec now s (.expire key seconds) = some ((), s') ∧
      s'.HoldsMembers key members (some (now + seconds * 1000000)) := by
  refine ⟨Function.update s key (some ⟨.sortedSet members, some (now + seconds * 1000000)⟩), ?_,
    by simp [HoldsMembers, hmembers]⟩
  simp [exec, h.find_eq, hmembers, hlive]

end Store.HoldsMembers

/-- A command on sorted sets, or on the time to live. -/
def Command.onSet : Command υ → Bool
  | .zremrangebyscore _ _ _ => true
  | .zcard _ => true
  | .zadd _ _ _ => true
  | .expire _ _ => true
  | _ => false

/-- There is nothing but a sorted set at the key. -/
def Store.IsSet (s : Store υ) (key : String) : Prop :=
  ∀ e, s key = some e → ∃ members, e.value = .sortedSet members

namespace Store.IsSet

variable {s : Store υ} {now : Int} {key : String}

theorem of_eq {s' : Store υ} (h : s.IsSet key) (heq : s' key = s key) : s'.IsSet key :=
  fun e he => h e (heq ▸ he)

theorem sortedSet? (h : s.IsSet key) (now : Int) :
    ∃ members, s.sortedSet? now key = some members := by
  unfold Store.sortedSet?
  cases hfind : s.find now key with
  | none => exact ⟨[], rfl⟩
  | some e =>
    obtain ⟨value, expiresAt⟩ := e
    obtain ⟨members, rfl⟩ := h _ (Option.filter_eq_some_iff.1 hfind).1
    exact ⟨members, rfl⟩

theorem putMembers (s : Store υ) (now : Int) (key : String) (members : List (υ × Int)) :
    (s.putMembers now key members).IsSet key := by
  intro e he
  unfold Store.putMembers Store.put at he
  split at he <;> rw [Function.update_self] at he <;> cases he
  exact ⟨members, rfl⟩

/-- A command on sorted sets is executed, and leaves a sorted set. -/
theorem exec [DecidableEq υ] [Text υ] {c : Command υ} (hc : c.onSet = true) (h : s.IsSet c.key)
    (now : Int) : ∃ r s', Redis.exec now s c = some (r, s') ∧ s'.IsSet c.key := by
  cases c with
  | zremrangebyscore key min max =>
    obtain ⟨members, hmembers⟩ := h.sortedSet? now
    refine ⟨(), _, ?_, putMembers s now key (members.filter fun m => m.2 < min ∨ max < m.2)⟩
    simp only [Redis.exec, show s.sortedSet? now key = _ from hmembers, Option.map_some]
  | zcard key =>
    obtain ⟨members, hmembers⟩ := h.sortedSet? now
    refine ⟨members.length, s, ?_, h⟩
    simp only [Redis.exec, show s.sortedSet? now key = _ from hmembers, Option.map_some]
  | zadd key member score =>
    obtain ⟨members, hmembers⟩ := h.sortedSet? now
    refine ⟨(), _, ?_, putMembers s now key (insertMember member score members)⟩
    simp only [Redis.exec, show s.sortedSet? now key = _ from hmembers, Option.map_some]
  | expire key seconds =>
    simp only [Redis.exec]
    cases hfind : s.find now key with
    | none => exact ⟨(), s, rfl, h⟩
    | some e =>
      refine ⟨(), _, rfl, fun e' he' => ?_⟩
      simp only [Command.key, Function.update_self, Option.some.injEq] at he'
      subst he'
      exact h e (Option.filter_eq_some_iff.1 hfind).1
  | _ => cases hc

end Store.IsSet

/-! ## Lists -/

/-- The list at a key, and the end of its time to live; an empty list is no key. -/
def Store.HoldsItems (s : Store υ) (key : String) (items : List υ)
    (expiresAt : Option Int) : Prop :=
  s key = if items = [] then none else some ⟨.list items, expiresAt⟩

namespace Store.HoldsItems

variable {s : Store υ} {now : Int} {key : String} {items : List υ} {expiresAt : Option Int}

theorem empty (h : s key = none) : s.HoldsItems key [] none := by
  simpa [HoldsItems] using h

theorem unique {items' : List υ} {expiresAt' : Option Int} (h : s.HoldsItems key items expiresAt)
    (h' : s.HoldsItems key items' expiresAt') : items = items' := by
  have heq := Eq.trans (Eq.symm h) h'
  by_cases hitems : items = [] <;> by_cases hitems' : items' = [] <;>
    simp [hitems, hitems'] at heq ⊢
  exact heq.1

/-- The entry lives as long as the list does. -/
theorem lives_of_entry (h : s.HoldsItems key items expiresAt) (hitems : items ≠ [])
    (hlive : ∀ e ∈ s key, e.Live now) : Lives expiresAt now :=
  hlive ⟨.list items, expiresAt⟩ (Option.mem_def.2 (h.trans (if_neg hitems)))

theorem entry_of_lives (h : s.HoldsItems key items expiresAt)
    (hlive : items ≠ [] → Lives expiresAt now) : ∀ e ∈ s key, e.Live now := by
  intro e he
  rw [show s key = _ from h] at he
  by_cases hitems : items = []
  · rw [if_pos hitems] at he
    cases he
  · rw [if_neg hitems] at he
    cases he
    exact hlive hitems

/-- What is found of it. -/
theorem find_eq (h : s.HoldsItems key items expiresAt) (hlive : ∀ e ∈ s key, e.Live now) :
    s.find now key = if items = [] then none else some ⟨.list items, expiresAt⟩ := by
  unfold Store.find
  rw [← show s key = _ from h]
  cases hentry : s key with
  | none => rfl
  | some e => exact Option.filter_eq_some_iff.2 ⟨rfl, decide_eq_true (hlive e hentry)⟩

/-- It is read while it lives. -/
theorem list? (h : s.HoldsItems key items expiresAt) (hlive : ∀ e ∈ s key, e.Live now) :
    s.list? now key = some items := by
  unfold Store.list?
  rw [h.find_eq hlive]
  by_cases hitems : items = [] <;> simp [hitems]

/-- Other items keep its time to live. -/
theorem putItems (h : s.HoldsItems key items expiresAt) (hlive : ∀ e ∈ s key, e.Live now)
    (items' : List υ) :
    (s.putItems now key items').HoldsItems key items' (if items = [] then none else expiresAt) := by
  unfold HoldsItems Store.putItems Store.put
  rw [h.find_eq hlive]
  by_cases hitems : items = [] <;> by_cases hitems' : items' = [] <;> simp [hitems, hitems']

variable [DecidableEq υ] [Text υ]

theorem lpush (h : s.HoldsItems key items expiresAt) (hlive : ∀ e ∈ s key, e.Live now) (text : υ) :
    ∃ s', exec now s (.lpush key text) = some ((), s') ∧
      s'.HoldsItems key (text :: items) (if items = [] then none else expiresAt) := by
  refine ⟨_, ?_, h.putItems hlive _⟩
  simp only [exec, h.list? hlive, Option.map_some]

theorem ltrim (h : s.HoldsItems key items expiresAt) (hlive : ∀ e ∈ s key, e.Live now)
    (start stop : Nat) : ∃ s', exec now s (.ltrim key start stop) = some ((), s') ∧
      s'.HoldsItems key ((items.take (stop + 1)).drop start)
        (if items = [] then none else expiresAt) := by
  refine ⟨_, ?_, h.putItems hlive _⟩
  simp only [exec, h.list? hlive, Option.map_some]

theorem lrange (h : s.HoldsItems key items expiresAt) (hlive : ∀ e ∈ s key, e.Live now)
    (start stop : Nat) :
    exec now s (.lrange key start stop) = some ((items.take (stop + 1)).drop start, s) := by
  simp only [exec, h.list? hlive, Option.map_some]

theorem expire (h : s.HoldsItems key items expiresAt) (hlive : ∀ e ∈ s key, e.Live now)
    (hitems : items ≠ []) (seconds : Int) :
    ∃ s', exec now s (.expire key seconds) = some ((), s') ∧
      s'.HoldsItems key items (some (now + seconds * 1000000)) := by
  refine ⟨Function.update s key (some ⟨.list items, some (now + seconds * 1000000)⟩), ?_,
    by simp [HoldsItems, hitems]⟩
  simp [exec, h.find_eq hlive, hitems]

end Store.HoldsItems

/-! ## Frame -/

section Frame

variable [DecidableEq υ] [Text υ] {now : Int} {s s' : Store υ} {c : Command υ} {r : Reply c}

/-- A command on the entry at its key. -/
def execEntry (now : Int) (e : Option (Entry υ)) (c : Command υ) :
    Option (Reply c × Option (Entry υ)) :=
  (exec now (fun _ => e) c).map fun r => (r.1, r.2 c.key)

/-- A command finds the entry at its key, and replaces it. -/
theorem exec_eq_entry (now : Int) (s : Store υ) (c : Command υ) :
    exec now s c = (execEntry now (s c.key) c).map fun r =>
      (r.1, Function.update s c.key r.2) := by
  have hfind (key : String) : Store.find (fun _ => s key) now key = s.find now key := rfl
  unfold execEntry
  rw [Option.map_map]
  cases c with
  | get | zcard | lrange =>
    simp only [exec, Command.key, Store.string?, Store.sortedSet?, Store.list?, hfind,
      Option.map_map, Function.comp_def, Function.update_eq_self]
  | set =>
    simp only [exec, Command.key, Store.fresh]
    split
    · simp
    · rfl
  | setNx =>
    simp only [exec, Command.key, hfind]
    split
    · split
      · simp
      · simp [Store.fresh]
    · rfl
  | incr =>
    simp only [exec, Command.key, Store.string?, hfind]
    split
    · simp [Store.put, hfind]
    · simp [Store.put, hfind, Option.map_map, Function.comp_def]
    · rfl
  | expire =>
    simp only [exec, Command.key, hfind]
    split <;> simp
  | zremrangebyscore | zadd =>
    simp only [exec, Command.key, Store.sortedSet?, Store.putMembers, Store.put, hfind,
      Option.map_map, Function.comp_def]
    congr 1
    funext members
    split <;> simp
  | lpush | ltrim =>
    simp only [exec, Command.key, Store.list?, Store.putItems, Store.put, hfind, Option.map_map,
      Function.comp_def]
    congr 1
    funext items
    split <;> simp

/-- A command leaves every other key alone. -/
theorem exec_of_ne (h : exec now s c = some (r, s')) {key : String} (hkey : key ≠ c.key) :
    s' key = s key := by
  rw [exec_eq_entry] at h
  obtain ⟨_, -, heq⟩ := Option.map_eq_some_iff.1 h
  cases heq
  exact Function.update_of_ne hkey _ s

/-- A command that reads leaves the store alone. -/
theorem exec_of_not_writes (h : exec now s c = some (r, s')) (hc : c.writes = false) : s' = s := by
  cases c with
  | get | zcard | lrange =>
    obtain ⟨_, -, heq⟩ := Option.map_eq_some_iff.1 h
    cases heq
    rfl
  | _ => cases hc

end Frame

/-! ## Contents -/

/-- The text a command can put at its key, as a string. -/
def Command.StringOf [Text υ] (c : Command υ) (text : υ) : Prop :=
  match c with
  | .set _ t _ => text = t
  | .setNx _ t _ => text = t
  | .incr _ => ∃ n, text = Text.ofInt n
  | _ => False

/-- The text a command can put into the list at its key. -/
def Command.ItemOf (c : Command υ) (text : υ) : Prop :=
  match c with
  | .lpush _ t => text = t
  | _ => False

/-- The text is in the list at a key. -/
def Store.HasItem (s : Store υ) (key : String) (text : υ) : Prop :=
  ∃ e items, s key = some e ∧ e.value = .list items ∧ text ∈ items

/-- The items of a list that is found are in it. -/
theorem Store.hasItem_of_list? {s : Store υ} {now : Int} {key : String} {items : List υ}
    {text : υ} (h : s.list? now key = some items) (htext : text ∈ items) : s.HasItem key text := by
  unfold list? at h
  split at h
  · cases h
    exact absurd htext List.not_mem_nil
  · next members expiresAt hfind =>
    cases h
    exact ⟨_, _, (Option.filter_eq_some_iff.1 hfind).1, rfl, htext⟩
  · cases h

/-- A list is read from an entry, or where there is none. -/
theorem Store.entry_of_list? {s : Store υ} {now : Int} {key : String} {items : List υ}
    (h : s.list? now key = some items) :
    s.find now key = none ∧ items = [] ∨ ∃ expiresAt, s key = some ⟨.list items, expiresAt⟩ := by
  unfold list? at h
  split at h
  · next hfind =>
    cases h
    exact .inl ⟨hfind, rfl⟩
  · next members expiresAt hfind =>
    cases h
    exact .inr ⟨expiresAt, (Option.filter_eq_some_iff.1 hfind).1⟩
  · cases h

/-- The list that is put at a key. -/
theorem Store.putItems_entry {s : Store υ} {now : Int} {key : String} {items items' : List υ}
    {expiresAt : Option Int} (h : s.putItems now key items key = some ⟨.list items', expiresAt⟩) :
    items' = items ∧ items ≠ [] := by
  unfold putItems put at h
  split at h
  · rw [Function.update_self] at h
    cases h
  · next hitems =>
    rw [Function.update_self] at h
    cases h
    exact ⟨rfl, fun hnil => hitems (List.isEmpty_iff.2 hnil)⟩

/-- Where the value at the key of a command comes from. -/
inductive Origin [Text υ] (s : Store υ) (c : Command υ) : Value υ → Prop
  | kept {e : Entry υ} {value : Value υ} (found : s c.key = some e) (same : e.value = value) :
      Origin s c value
  | string {text : υ} (of : c.StringOf text) : Origin s c (.string text)
  | sortedSet (members : List (υ × Int)) : Origin s c (.sortedSet members)
  | list {items : List υ} (of : ∀ text ∈ items, s.HasItem c.key text ∨ c.ItemOf text) :
      Origin s c (.list items)

section Contents

variable [DecidableEq υ] [Text υ] {now : Int} {s s' : Store υ} {c : Command υ} {r : Reply c}
  {e : Entry υ} {text : υ}

theorem exec_origin (h : exec now s c = some (r, s')) (he : s' c.key = some e) :
    Origin s c e.value := by
  cases c with
  | get | zcard | lrange => exact .kept (exec_of_not_writes h rfl ▸ he) rfl
  | set key t ex =>
    simp only [exec] at h
    split at h <;> cases h
    simp only [Command.key, Store.fresh, Function.update_self, Option.some.injEq] at he
    exact he ▸ .string rfl
  | setNx key t ex =>
    simp only [exec] at h
    split at h
    · split at h <;> cases h
      · exact .kept he rfl
      · simp only [Command.key, Store.fresh, Function.update_self, Option.some.injEq] at he
        exact he ▸ .string rfl
    · cases h
  | incr key =>
    simp only [exec] at h
    split at h
    · cases h
      simp only [Command.key, Store.put, Function.update_self, Option.some.injEq] at he
      exact he ▸ .string ⟨_, rfl⟩
    · obtain ⟨n, -, heq⟩ := Option.map_eq_some_iff.1 h
      cases heq
      simp only [Command.key, Store.put, Function.update_self, Option.some.injEq] at he
      exact he ▸ .string ⟨_, rfl⟩
    · cases h
  | expire key seconds =>
    simp only [exec] at h
    split at h
    · cases h
      exact .kept he rfl
    · next e' hfind =>
      cases h
      simp only [Command.key, Function.update_self, Option.some.injEq] at he
      subst he
      exact .kept (Option.filter_eq_some_iff.1 hfind).1 rfl
  | zremrangebyscore | zadd =>
    obtain ⟨members, -, heq⟩ := Option.map_eq_some_iff.1 h
    cases heq
    simp only [Command.key, Store.putMembers] at he
    split at he
    · simp at he
    · simp only [Store.put, Function.update_self, Option.some.injEq] at he
      exact he ▸ .sortedSet _
  | lpush key t =>
    obtain ⟨items', hlist, heq⟩ := Option.map_eq_some_iff.1 h
    cases heq
    simp only [Command.key, Store.putItems, List.isEmpty_cons, Bool.false_eq_true, if_false,
      Store.put, Function.update_self, Option.some.injEq] at he
    refine he ▸ .list fun text htext => ?_
    rcases List.mem_cons.1 htext with htext | htext
    · exact .inr htext
    · exact .inl (Store.hasItem_of_list? hlist htext)
  | ltrim key start stop =>
    obtain ⟨items', hlist, heq⟩ := Option.map_eq_some_iff.1 h
    cases heq
    simp only [Command.key, Store.putItems] at he
    split at he
    · simp at he
    · simp only [Store.put, Function.update_self, Option.some.injEq] at he
      refine he ▸ .list fun text htext => .inl ?_
      exact Store.hasItem_of_list? hlist (List.mem_of_mem_take (List.mem_of_mem_drop htext))

/-- A string after a command was there before, or is one the command puts there. -/
theorem exec_string (h : exec now s c = some (r, s')) (he : s' c.key = some e)
    (htext : e.value = .string text) :
    (∃ e', s c.key = some e' ∧ e'.value = .string text) ∨ c.StringOf text := by
  have horigin := exec_origin h he
  rw [htext] at horigin
  cases horigin with
  | kept found same => exact .inl ⟨_, found, same⟩
  | string of => exact .inr of

/-- An item of a list after a command was in the list before, or is one the command puts there. -/
theorem exec_item (h : exec now s c = some (r, s')) (htext : s'.HasItem c.key text) :
    s.HasItem c.key text ∨ c.ItemOf text := by
  obtain ⟨e, items, he, hitems, hmem⟩ := htext
  have horigin := exec_origin h he
  rw [hitems] at horigin
  cases horigin with
  | kept found same => exact .inl ⟨_, items, found, same, hmem⟩
  | list of => exact of text hmem

end Contents

end Redis

end Foundation
