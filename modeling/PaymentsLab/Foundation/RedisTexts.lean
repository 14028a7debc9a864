import PaymentsLab.Foundation.Redis

/-!
# Stores over two types of texts

A map of the texts takes a store to one that answers every command alike, as long as `INCR` finds
the same integers and no two members of a sorted set become one (`exec_map`). `Store.Of` says of
which kinds the texts of a store are, and `Store.Of.exec` that commands keep to them.
-/

namespace Foundation

namespace Redis

variable {υ υ' : Type}

/-! ## Maps of the texts -/

def Value.map (f : υ → υ') : Value υ → Value υ'
  | .string text => .string (f text)
  | .sortedSet members => .sortedSet (members.map fun m => (f m.1, m.2))
  | .list items => .list (items.map f)

def Entry.map (f : υ → υ') (e : Entry υ) : Entry υ' :=
  ⟨e.value.map f, e.expiresAt⟩

def Store.map (f : υ → υ') (s : Store υ) : Store υ' :=
  fun key => (s key).map (Entry.map f)

def Command.map (f : υ → υ') : Command υ → Command υ'
  | .get key => .get key
  | .set key text ex => .set key (f text) ex
  | .setNx key text ex => .setNx key (f text) ex
  | .incr key => .incr key
  | .expire key seconds => .expire key seconds
  | .zremrangebyscore key min max => .zremrangebyscore key min max
  | .zcard key => .zcard key
  | .zadd key member score => .zadd key (f member) score
  | .lpush key text => .lpush key (f text)
  | .ltrim key start stop => .ltrim key start stop
  | .lrange key start stop => .lrange key start stop

/-- The reply to a command over `υ'`, read as one over `υ`. -/
def Command.readReply (f : υ → υ') (g : υ' → υ) : (c : Command υ) → Reply (c.map f) → Reply c
  | .get _, text => Option.map g text
  | .set _ _ _, r => r
  | .setNx _ _ _, r => r
  | .incr _, r => r
  | .expire _ _, r => r
  | .zremrangebyscore _ _ _, r => r
  | .zcard _, r => r
  | .zadd _ _ _, r => r
  | .lpush _ _, r => r
  | .ltrim _ _ _, r => r
  | .lrange _ _ _, items => List.map g items

/-- A reply whose texts are replaced. -/
def Command.mapReply (h : υ → υ) : (c : Command υ) → Reply c → Reply c
  | .get _, text => Option.map h text
  | .set _ _ _, r => r
  | .setNx _ _ _, r => r
  | .incr _, r => r
  | .expire _ _, r => r
  | .zremrangebyscore _ _ _, r => r
  | .zcard _, r => r
  | .zadd _ _ _, r => r
  | .lpush _ _, r => r
  | .ltrim _ _ _, r => r
  | .lrange _ _ _, items => List.map h items

section Map

variable (f : υ → υ') (s : Store υ) (now : Int) (key : String)

theorem Store.find_map : (s.map f).find now key = (s.find now key).map (Entry.map f) := by
  unfold Store.find Store.map
  cases s key with
  | none => rfl
  | some e =>
    rw [Option.map_some, Option.filter_some, Option.filter_some]
    by_cases hlive : e.Live now
    · rw [if_pos (decide_eq_true hlive), if_pos (decide_eq_true (p := (e.map f).Live now) hlive)]
      rfl
    · rw [if_neg (fun h => hlive (of_decide_eq_true h)),
        if_neg (fun h => hlive (of_decide_eq_true (p := (e.map f).Live now) h))]
      rfl

theorem Store.string?_map :
    (s.map f).string? now key = (s.string? now key).map (Option.map f) := by
  unfold Store.string?
  rw [Store.find_map]
  cases s.find now key with
  | none => rfl
  | some e =>
    obtain ⟨value, expiresAt⟩ := e
    cases value <;> rfl

theorem Store.sortedSet?_map : (s.map f).sortedSet? now key =
    (s.sortedSet? now key).map (List.map fun m => (f m.1, m.2)) := by
  unfold Store.sortedSet?
  rw [Store.find_map]
  cases s.find now key with
  | none => rfl
  | some e =>
    obtain ⟨value, expiresAt⟩ := e
    cases value <;> rfl

theorem Store.list?_map : (s.map f).list? now key = (s.list? now key).map (List.map f) := by
  unfold Store.list?
  rw [Store.find_map]
  cases s.find now key with
  | none => rfl
  | some e =>
    obtain ⟨value, expiresAt⟩ := e
    cases value <;> rfl

theorem Store.map_update (e : Option (Entry υ)) :
    Store.map f (Function.update s key e) =
      Function.update (s.map f) key (e.map (Entry.map f)) := by
  funext key'
  by_cases hkey : key' = key
  · subst hkey
    simp [Store.map]
  · simp [Store.map, Function.update_of_ne hkey]

theorem Store.map_put (value : Value υ) :
    (s.put now key value).map f = (s.map f).put now key (value.map f) := by
  unfold Store.put
  rw [Store.map_update, Store.find_map, Option.map_some]
  cases s.find now key <;> rfl

theorem Store.map_putMembers (members : List (υ × Int)) : (s.putMembers now key members).map f =
    (s.map f).putMembers now key (members.map fun m => (f m.1, m.2)) := by
  unfold Store.putMembers
  rw [List.isEmpty_map]
  split
  · exact Store.map_update f s key none
  · exact Store.map_put f s now key _

theorem Store.map_putItems (items : List υ) :
    (s.putItems now key items).map f = (s.map f).putItems now key (items.map f) := by
  unfold Store.putItems
  rw [List.isEmpty_map]
  split
  · exact Store.map_update f s key none
  · exact Store.map_put f s now key _

theorem Store.map_fresh (text : υ) (ex : Int) :
    (s.fresh now key text ex).map f = (s.map f).fresh now key (f text) ex :=
  Store.map_update f s key _

end Map

/-- The member that is added does not become one that is there. -/
theorem map_insertMember [DecidableEq υ] [DecidableEq υ'] {f : υ → υ'} {member : υ} {score : Int}
    {members : List (υ × Int)} (h : ∀ m ∈ members, f m.1 = f member → m.1 = member) :
    (insertMember member score members).map (fun m => (f m.1, m.2)) =
      insertMember (f member) score (members.map fun m => (f m.1, m.2)) := by
  unfold insertMember
  rw [List.map_cons, List.filter_map]
  congr 2
  refine List.filter_congr fun m hm => ?_
  have hiff : m.1 = member ↔ f m.1 = f member := ⟨fun heq => heq ▸ rfl, h m hm⟩
  simp only [Function.comp_apply, ne_eq, hiff]

/-! ## Commands -/

section Exec

variable [DecidableEq υ] [DecidableEq υ'] [Text υ] [Text υ']

/-- What a map has to respect for a command to be executed alike. -/
def Command.Respected (f : υ → υ') (s : Store υ) (now : Int) : Command υ → Prop
  | .incr key => (∀ n, f (Text.ofInt n) = Text.ofInt n) ∧
      ∀ text, s.string? now key = some (some text) → Text.toInt (f text) = Text.toInt text
  | .zadd key member _ => ∀ members, s.sortedSet? now key = some members →
      ∀ m ∈ members, f m.1 = f member → m.1 = member
  | _ => True

/-- A command over the texts of one type is executed as it is over those of the other. -/
theorem exec_map {f : υ → υ'} (g : υ' → υ) {s : Store υ} {now : Int} {c : Command υ}
    (h : c.Respected f s now) :
    (exec now (s.map f) (c.map f)).map (fun r => (c.readReply f g r.1, r.2)) =
      (exec now s c).map fun r => (c.mapReply (g ∘ f) r.1, r.2.map f) := by
  cases c with
  | get key =>
    simp only [exec, Command.map, Store.string?_map, Option.map_map]
    cases s.string? now key with
    | none => rfl
    | some text => cases text <;> rfl
  | set key text ex =>
    simp only [exec, Command.map]
    split
    · rw [Option.map_some, Option.map_some, Store.map_fresh]
    · rfl
  | setNx key text ex =>
    simp only [exec, Command.map, Store.find_map, Option.isSome_map]
    split
    · split
      · rfl
      · rw [Option.map_some, Option.map_some, Store.map_fresh]
        rfl
    · rfl
  | incr key =>
    obtain ⟨hof, hto⟩ := h
    simp only [exec, Command.map, Store.string?_map]
    cases htext : s.string? now key with
    | none => rfl
    | some text =>
      cases text with
      | none =>
        simp only [Option.map_some, Option.map_none, Store.map_put, Value.map, hof]
        rfl
      | some text =>
        simp only [Option.map_some, hto text htext]
        cases Text.toInt text with
        | none => rfl
        | some n =>
          simp only [Option.map_some, Store.map_put, Value.map, hof]
          rfl
  | expire key seconds =>
    simp only [exec, Command.map, Store.find_map]
    cases s.find now key with
    | none => rfl
    | some e =>
      simp only [Option.map_some, Store.map_update]
      rfl
  | zremrangebyscore key min max =>
    simp only [exec, Command.map, Store.sortedSet?_map, Option.map_map]
    cases s.sortedSet? now key with
    | none => rfl
    | some members =>
      simp only [Option.map_some, Function.comp_apply, Store.map_putMembers, List.filter_map]
      rfl
  | zcard key =>
    simp only [exec, Command.map, Store.sortedSet?_map, Option.map_map]
    cases s.sortedSet? now key with
    | none => rfl
    | some members =>
      simp only [Option.map_some, Function.comp_apply, List.length_map]
      rfl
  | zadd key member score =>
    simp only [exec, Command.map, Store.sortedSet?_map, Option.map_map]
    cases hmembers : s.sortedSet? now key with
    | none => rfl
    | some members =>
      simp only [Option.map_some, Function.comp_apply, Store.map_putMembers,
        map_insertMember (h members hmembers)]
  | lpush key text =>
    simp only [exec, Command.map, Store.list?_map, Option.map_map]
    cases s.list? now key with
    | none => rfl
    | some items =>
      simp only [Option.map_some, Function.comp_apply, Store.map_putItems, List.map_cons]
  | ltrim key start stop =>
    simp only [exec, Command.map, Store.list?_map, Option.map_map]
    cases s.list? now key with
    | none => rfl
    | some items =>
      simp only [Option.map_some, Function.comp_apply, Store.map_putItems, List.map_drop,
        List.map_take]
  | lrange key start stop =>
    simp only [exec, Command.map, Store.list?_map, Option.map_map]
    cases s.list? now key with
    | none => rfl
    | some items =>
      simp only [Option.map_some, Function.comp_apply, Command.readReply, Command.mapReply,
        List.map_drop, List.map_take, List.map_map]

end Exec

/-! ## Kinds of texts -/

/-- Which texts are strings, members of sorted sets, and items of lists. -/
structure Kinds (υ : Type) where
  string : υ → Prop
  member : υ → Prop
  item : υ → Prop

variable {k : Kinds υ}

def Value.Of (k : Kinds υ) : Value υ → Prop
  | .string text => k.string text
  | .sortedSet members => ∀ m ∈ members, k.member m.1
  | .list items => ∀ text ∈ items, k.item text

def Store.Of (k : Kinds υ) (s : Store υ) : Prop :=
  ∀ key e, s key = some e → e.value.Of k

/-- The texts of a command are of their kind. -/
def Command.Of [Text υ] (k : Kinds υ) (s : Store υ) (now : Int) : Command υ → Prop
  | .set _ text _ => k.string text
  | .setNx _ text _ => k.string text
  | .incr key => ∀ text, s.string? now key = some text →
      ∀ n, (match text with | none => some 0 | some text => Text.toInt text) = some n →
        k.string (Text.ofInt (n + 1))
  | .zadd _ member _ => k.member member
  | .lpush _ text => k.item text
  | _ => True

namespace Store.Of

variable {s : Store υ} {now : Int} {key : String}

theorem find (h : s.Of k) {e : Entry υ} (he : s.find now key = some e) : e.value.Of k :=
  h key e (Option.filter_eq_some_iff.1 he).1

theorem string? (h : s.Of k) {text : υ} (ht : s.string? now key = some (some text)) :
    k.string text := by
  unfold Store.string? at ht
  split at ht
  · cases ht
  · next hfind =>
    cases ht
    exact h.find hfind
  · cases ht

theorem sortedSet? (h : s.Of k) {members : List (υ × Int)}
    (hm : s.sortedSet? now key = some members) : ∀ m ∈ members, k.member m.1 := by
  unfold Store.sortedSet? at hm
  split at hm
  · cases hm
    exact fun m hmem => absurd hmem List.not_mem_nil
  · next hfind =>
    cases hm
    exact h.find hfind
  · cases hm

theorem list? (h : s.Of k) {items : List υ} (hl : s.list? now key = some items) :
    ∀ text ∈ items, k.item text := by
  unfold Store.list? at hl
  split at hl
  · cases hl
    exact fun text hmem => absurd hmem List.not_mem_nil
  · next hfind =>
    cases hl
    exact h.find hfind
  · cases hl

theorem update (h : s.Of k) {e : Option (Entry υ)} (he : ∀ e' ∈ e, e'.value.Of k) :
    Store.Of k (Function.update s key e) := by
  intro key' e' hentry
  by_cases hkey : key' = key
  · subst hkey
    rw [Function.update_self] at hentry
    exact he e' hentry
  · rw [Function.update_of_ne hkey] at hentry
    exact h key' e' hentry

theorem put (h : s.Of k) (value : Value υ) (hv : value.Of k) : (s.put now key value).Of k :=
  h.update fun e' he' => by
    cases he'
    exact hv

theorem putMembers (h : s.Of k) {members : List (υ × Int)} (hm : ∀ m ∈ members, k.member m.1) :
    (s.putMembers now key members).Of k := by
  unfold Store.putMembers
  split
  · exact h.update fun e' he' => by cases he'
  · exact h.put (.sortedSet members) hm

theorem putItems (h : s.Of k) {items : List υ} (hi : ∀ text ∈ items, k.item text) :
    (s.putItems now key items).Of k := by
  unfold Store.putItems
  split
  · exact h.update fun e' he' => by cases he'
  · exact h.put (.list items) hi

theorem fresh (h : s.Of k) {text : υ} (ht : k.string text) (ex : Int) :
    (s.fresh now key text ex).Of k :=
  h.update fun e' he' => by
    cases he'
    exact ht

end Store.Of

/-- The texts of a reply are of their kind. -/
def Command.ReplyOf (k : Kinds υ) : (c : Command υ) → Reply c → Prop
  | .get _, text => ∀ t, text = some t → k.string t
  | .lrange _ _ _, items => ∀ text, text ∈ items → k.item text
  | _, _ => True

/-- A command whose texts are of their kind keeps to the kinds, and so does its reply. -/
theorem Store.Of.exec [DecidableEq υ] [Text υ] {s s' : Store υ} {now : Int} {c : Command υ}
    {r : Reply c} (h : s.Of k) (hc : c.Of k s now) (hexec : Redis.exec now s c = some (r, s')) :
    s'.Of k ∧ c.ReplyOf k r := by
  cases c with
  | get key =>
    obtain ⟨text, htext, heq⟩ := Option.map_eq_some_iff.1 hexec
    cases heq
    exact ⟨h, fun t ht => h.string? (htext.trans (congrArg some ht))⟩
  | set key text ex =>
    simp only [Redis.exec] at hexec
    split at hexec
    · cases hexec
      exact ⟨h.fresh hc ex, trivial⟩
    · cases hexec
  | setNx key text ex =>
    simp only [Redis.exec] at hexec
    split at hexec
    · split at hexec
      · cases hexec
        exact ⟨h, trivial⟩
      · cases hexec
        exact ⟨h.fresh hc ex, trivial⟩
    · cases hexec
  | incr key =>
    simp only [Redis.exec] at hexec
    split at hexec
    · next htext =>
      cases hexec
      exact ⟨h.put (.string _) (hc none htext 0 rfl), trivial⟩
    · next text htext =>
      obtain ⟨n, hn, heq⟩ := Option.map_eq_some_iff.1 hexec
      cases heq
      exact ⟨h.put (.string _) (hc (some text) htext n hn), trivial⟩
    · cases hexec
  | expire key seconds =>
    simp only [Redis.exec] at hexec
    split at hexec
    · cases hexec
      exact ⟨h, trivial⟩
    · next e hfind =>
      cases hexec
      have hvalue : e.value.Of k := h.find hfind
      refine ⟨h.update fun e' he' => ?_, trivial⟩
      cases he'
      exact hvalue
  | zremrangebyscore key min max =>
    obtain ⟨members, hmembers, heq⟩ := Option.map_eq_some_iff.1 hexec
    cases heq
    refine ⟨h.putMembers fun m hm => ?_, trivial⟩
    exact h.sortedSet? hmembers m (List.mem_filter.1 hm).1
  | zcard key =>
    obtain ⟨members, hmembers, heq⟩ := Option.map_eq_some_iff.1 hexec
    cases heq
    exact ⟨h, trivial⟩
  | zadd key member score =>
    obtain ⟨members, hmembers, heq⟩ := Option.map_eq_some_iff.1 hexec
    cases heq
    refine ⟨h.putMembers fun m hm => ?_, trivial⟩
    rcases List.mem_cons.1 hm with rfl | hm
    · exact hc
    · exact h.sortedSet? hmembers m (List.mem_filter.1 hm).1
  | lpush key text =>
    obtain ⟨items, hitems, heq⟩ := Option.map_eq_some_iff.1 hexec
    cases heq
    refine ⟨h.putItems fun t ht => ?_, trivial⟩
    rcases List.mem_cons.1 ht with rfl | ht
    · exact hc
    · exact h.list? hitems t ht
  | ltrim key start stop =>
    obtain ⟨items, hitems, heq⟩ := Option.map_eq_some_iff.1 hexec
    cases heq
    exact ⟨h.putItems fun t ht => h.list? hitems t (List.mem_of_mem_take (List.mem_of_mem_drop ht)),
      trivial⟩
  | lrange key start stop =>
    obtain ⟨items, hitems, heq⟩ := Option.map_eq_some_iff.1 hexec
    cases heq
    exact ⟨h, fun t ht => h.list? hitems t (List.mem_of_mem_take (List.mem_of_mem_drop ht))⟩

end Redis

end Foundation
