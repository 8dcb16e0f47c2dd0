import Mathlib.Data.List.Induction
import Mathlib.Data.List.Nodup
import Multiparty.Session

/-!
# Collections keyed by name

Members of groups, declarations of sessions and interrupts of scopes are kept
under names.  Storing an item puts it in the place of the item of the same name,
or at the end if there is none.  After any number of calls a collection holds
the last item of each name, and the names stand in the order in which they came
up first.  Nothing else of an ordered map is needed for this, so the law is
stated for any map that stores in this way; a registry is one.
-/

namespace Multiparty

section Keyed

variable {α κ : Type} {key : α → κ}

/-- Storing an item puts it in the place of the item that has its key, which is
replaced, or else at the end. -/
inductive Stores (key : α → κ) (item : α) :
    List α → Option α → List α → Prop where
  | inPlace {front back : List α} {replaced : α} :
      key replaced = key item →
      Stores key item (front ++ replaced :: back) (some replaced)
        (front ++ item :: back)
  | atEnd {stored : List α} :
      key item ∉ stored.map key →
      Stores key item stored none (stored ++ [item])

namespace Stores

variable {stored next : List α} {item : α} {replaced : Option α}

theorem cons {head : α} (different : key head ≠ key item)
    (stores : Stores key item stored replaced next) :
    Stores key item (head :: stored) replaced (head :: next) := by
  cases stores with
  | inPlace same =>
      rw [← List.cons_append, ← List.cons_append]
      exact .inPlace same
  | atEnd fresh =>
      rw [← List.cons_append]
      apply Stores.atEnd
      rw [List.map_cons, List.mem_cons, not_or]
      exact ⟨Ne.symm different, fresh⟩

/-- Where keys are distinct, everything else that is stored has another key. -/
theorem eq_or_mem (stores : Stores key item stored replaced next)
    (distinct : (stored.map key).Nodup) {other : α} (member : other ∈ next) :
    other = item ∨ (other ∈ stored ∧ key other ≠ key item) := by
  cases stores with
  | @inPlace front back replaced same =>
      rw [List.map_append, List.map_cons, List.nodup_middle, List.nodup_cons,
        ← List.map_append] at distinct
      rw [List.perm_middle.mem_iff, List.mem_cons] at member
      apply member.imp_right
      intro beside
      refine ⟨List.perm_middle.mem_iff.mpr (.tail _ beside), ?_⟩
      intro clash
      apply distinct.1
      exact List.mem_map.mpr ⟨other, beside, clash.trans same.symm⟩
  | atEnd fresh =>
      rw [List.mem_append, List.mem_singleton] at member
      apply member.symm.imp_right
      intro earlier
      refine ⟨earlier, ?_⟩
      intro clash
      exact fresh (List.mem_map.mpr ⟨other, earlier, clash⟩)

end Stores

variable [DecidableEq κ]

/-- The keys stay where they are, and a new one comes last. -/
theorem Stores.map_key {stored next : List α} {item : α} {replaced : Option α}
    (stores : Stores key item stored replaced next) :
    next.map key =
      if key item ∈ stored.map key then stored.map key
      else stored.map key ++ [key item] := by
  cases stores with
  | inPlace same => simp [same]
  | atEnd fresh => rw [if_neg fresh, List.map_append, List.map_singleton]

/-- Replacing the first item of a key, or appending, stores an item and replaces
what is found under its key. -/
theorem stores_upsert (key : α → κ) (item : α) (stored : List α) :
    Stores key item stored (stored.find? fun other => key other = key item)
      (upsert key item stored) := by
  induction stored with
  | nil => exact .atEnd List.not_mem_nil
  | cons head tail ih =>
      rw [upsert, List.find?_cons]
      by_cases same : key head = key item
      · rw [if_pos same, decide_eq_true same, ← List.nil_append (head :: tail),
          ← List.nil_append (item :: tail)]
        exact .inPlace same
      · rw [if_neg same, decide_eq_false same]
        exact ih.cons same

/-- The last item of a history that has the given key. -/
def latest? (key : α → κ) (history : List α) (wanted : κ) : Option α :=
  history.findRev? fun item => key item = wanted

theorem latest?_concat (key : α → κ) (history : List α) (item : α) (wanted : κ) :
    latest? key (history ++ [item]) wanted =
      if key item = wanted then some item else latest? key history wanted := by
  rw [latest?, latest?, List.findRev?_eq_find?_reverse,
    List.findRev?_eq_find?_reverse, List.reverse_concat, List.find?_cons]
  by_cases same : key item = wanted <;> simp [same]

theorem latest?_eq_none_iff {key : α → κ} {history : List α} {wanted : κ} :
    latest? key history wanted = none ↔ wanted ∉ history.map key := by
  simp [latest?, List.findRev?_eq_find?_reverse]

theorem eraseDups_concat (keys : List κ) (last : κ) :
    (keys ++ [last]).eraseDups =
      if last ∈ keys then keys.eraseDups else keys.eraseDups ++ [last] := by
  rw [List.eraseDups_append]
  by_cases known : last ∈ keys
  · simp [List.removeAll, known]
  · simp [List.removeAll, known, List.eraseDups_cons]

/-- What is stored is the last item of each key in the history, and the keys
are in the order in which the history brings them up first. -/
structure LastWrites (key : α → κ) (history stored : List α) : Prop where
  distinct : (stored.map key).Nodup
  -- `eraseDups` keeps the first of equal keys.
  ordered : stored.map key = (history.map key).eraseDups
  latest : ∀ item ∈ stored, latest? key history (key item) = some item

namespace LastWrites

variable {history stored next : List α} {item : α} {replaced : Option α}

theorem nil (key : α → κ) : LastWrites key [] [] where
  distinct := List.nodup_nil
  ordered := rfl
  latest := nofun

theorem mem_keys_iff (writes : LastWrites key history stored) {wanted : κ} :
    wanted ∈ stored.map key ↔ wanted ∈ history.map key := by
  rw [writes.ordered, List.mem_eraseDups]

/-- Storing an item adds it to the history. -/
theorem store (writes : LastWrites key history stored)
    (stores : Stores key item stored replaced next) :
    LastWrites key (history ++ [item]) next where
  distinct := by
    rw [stores.map_key]
    split
    · exact writes.distinct
    case isFalse fresh =>
      rw [← List.concat_eq_append]
      exact List.Nodup.concat fresh writes.distinct
  ordered := by
    rw [stores.map_key, List.map_append, List.map_singleton, eraseDups_concat,
      ← writes.ordered]
    simp only [writes.mem_keys_iff]
  latest := by
    intro other member
    rw [latest?_concat]
    rcases stores.eq_or_mem writes.distinct member with rfl | ⟨earlier, different⟩
    · rw [if_pos rfl]
    · rw [if_neg (Ne.symm different)]
      exact writes.latest other earlier

/-- What is replaced is the last item of the key in the history. -/
theorem replaced_eq (writes : LastWrites key history stored)
    (stores : Stores key item stored replaced next) :
    replaced = latest? key history (key item) := by
  cases stores with
  | @inPlace front back replaced same =>
      rw [← same, writes.latest replaced (by simp)]
  | atEnd fresh =>
      rw [writes.mem_keys_iff] at fresh
      exact (latest?_eq_none_iff.mpr fresh).symm

end LastWrites

end Keyed

section Entries

variable {α : Type} {nameOf : α → String} {history : List α}
  {entries next : List (String × α)} {value : α} {replaced : Option α}

/-- The entries hold what a history stored, every value under its own name, and
a look-up finds the last value of each name. -/
structure Records (nameOf : α → String) (history : List α)
    (entries : List (String × α)) : Prop where
  named : ∀ entry ∈ entries, entry.1 = nameOf entry.2
  lastWrites : LastWrites nameOf history (entries.map Prod.snd)
  found : ∀ name, entries.lookup name = latest? nameOf history name

/-- A call that stores a value after a history overwrites its name's entry in
place or adds one at the end, and returns the value that was stored there. -/
structure Replaces (nameOf : α → String) (history : List α)
    (before : List (String × α)) (value : α) (replaced : Option α)
    (after : List (String × α)) : Prop where
  stores : Stores nameOf value (before.map Prod.snd) replaced
    (after.map Prod.snd)
  latest : replaced = latest? nameOf history (nameOf value)

theorem map_nameOf_values
    (named : ∀ entry ∈ entries, entry.1 = nameOf entry.2) :
    (entries.map Prod.snd).map nameOf = entries.map Prod.fst := by
  rw [List.map_map]
  exact List.map_congr_left fun entry member => (named entry member).symm

/-- Where every value is stored under its own name, the values are stored by
their names. -/
theorem stores_values
    (named : ∀ entry ∈ entries, entry.1 = nameOf entry.2)
    (stores : Stores Prod.fst (nameOf value, value) entries
      (replaced.map (Prod.mk (nameOf value))) next) :
    Stores nameOf value (entries.map Prod.snd) replaced (next.map Prod.snd) := by
  generalize isStored : replaced.map (Prod.mk (nameOf value)) = stored at stores
  cases stores with
  | @inPlace front back known same =>
      obtain ⟨earlier, rfl, rfl⟩ := Option.map_eq_some_iff.mp isStored
      rw [List.map_append, List.map_append]
      apply Stores.inPlace
      exact (named (nameOf value, earlier) (by simp)).symm
  | atEnd fresh =>
      rw [Option.map_eq_none_iff.mp isStored, List.map_append]
      apply Stores.atEnd
      rwa [map_nameOf_values named]

theorem lookup_eq_latest? (named : ∀ entry ∈ entries, entry.1 = nameOf entry.2)
    (writes : LastWrites nameOf history (entries.map Prod.snd)) (name : String) :
    entries.lookup name = latest? nameOf history name := by
  cases located : entries.lookup name with
  | none =>
      symm
      rw [latest?_eq_none_iff, ← writes.mem_keys_iff, map_nameOf_values named]
      intro stored
      obtain ⟨entry, member, rfl⟩ := List.mem_map.mp stored
      simpa using List.lookup_eq_none_iff.mp located entry member
  | some value =>
      obtain ⟨front, back, rfl, _⟩ := List.lookup_eq_some_iff.mp located
      have isName : name = nameOf value := named (name, value) (by simp)
      rw [isName, writes.latest value (by simp)]

namespace Records

theorem empty (nameOf : α → String) : Records nameOf [] [] where
  named := nofun
  lastWrites := .nil nameOf
  found := fun _ => rfl

theorem nodup_keys (records : Records nameOf history entries) :
    (entries.map Prod.fst).Nodup := by
  rw [← map_nameOf_values records.named]
  exact records.lastWrites.distinct

theorem replaces (records : Records nameOf history entries)
    (stores : Stores Prod.fst (nameOf value, value) entries
      (replaced.map (Prod.mk (nameOf value))) next) :
    Replaces nameOf history entries value replaced next where
  stores := stores_values records.named stores
  latest := records.lastWrites.replaced_eq (stores_values records.named stores)

/-- Storing a value under its name adds it to the history. -/
theorem store (records : Records nameOf history entries)
    (stores : Stores Prod.fst (nameOf value, value) entries
      (replaced.map (Prod.mk (nameOf value))) next) :
    Records nameOf (history ++ [value]) next := by
  have named : ∀ entry ∈ next, entry.1 = nameOf entry.2 := by
    intro entry member
    rcases stores.eq_or_mem records.nodup_keys member with rfl | ⟨earlier, _⟩
    · rfl
    · exact records.named entry earlier
  have writes := records.lastWrites.store (stores_values records.named stores)
  exact ⟨named, writes, lookup_eq_latest? named writes⟩

end Records

end Entries

/-- The operations that collections use of an ordered map from names to values:
storing a value returns the value that it replaces. -/
structure OrderedMap (μ α : Type) where
  entries : μ → List (String × α)
  empty : μ
  insert : μ → String → α → Option α × μ

namespace OrderedMap

variable {μ α : Type} {map : OrderedMap μ α}

/-- All that is assumed of an ordered map: the empty one has no entries, and
storing a value overwrites the entry of its name in place, or else adds an entry
at the end. -/
structure InsertStores (map : OrderedMap μ α) : Prop where
  empty : map.entries map.empty = []
  insert : ∀ state name value,
    Stores Prod.fst (name, value) (map.entries state)
      ((map.insert state name value).1.map (Prod.mk name))
      (map.entries (map.insert state name value).2)

/-- Store values one after the other, each under its own name. -/
def run (map : OrderedMap μ α) (nameOf : α → String) (history : List α) : μ :=
  history.foldl (fun state value => (map.insert state (nameOf value) value).2)
    map.empty

theorem run_concat (map : OrderedMap μ α) (nameOf : α → String)
    (history : List α) (value : α) :
    map.run nameOf (history ++ [value]) =
      (map.insert (map.run nameOf history) (nameOf value) value).2 := by
  rw [run, List.foldl_append, run]
  rfl

/-- Whatever is stored one after the other is recorded. -/
theorem InsertStores.records_run (stores : map.InsertStores)
    (nameOf : α → String) (history : List α) :
    Records nameOf history (map.entries (map.run nameOf history)) := by
  induction history using List.reverseRecOn with
  | nil =>
      have start : map.entries (map.run nameOf []) = [] := stores.empty
      rw [start]
      exact .empty nameOf
  | append_singleton history value ih =>
      rw [run_concat]
      exact ih.store (stores.insert _ (nameOf value) value)

theorem InsertStores.replaces_run (stores : map.InsertStores)
    (nameOf : α → String) (history : List α) (value : α) :
    let state := map.run nameOf history
    let call := map.insert state (nameOf value) value
    Replaces nameOf history (map.entries state) value call.1
      (map.entries call.2) :=
  (stores.records_run nameOf history).replaces
    (stores.insert _ (nameOf value) value)

end OrderedMap

namespace Registry

variable {α : Type}

/-- Registries as ordered maps. -/
def orderedMap : OrderedMap (Registry α) α where
  entries := entries
  empty := {}
  insert := getThenInsert?

theorem find?_entries (registry : Registry α) (name : String) :
    (registry.entries.find? fun entry => entry.1 = name) =
      (registry.get? name).map (Prod.mk name) := by
  obtain ⟨entries⟩ := registry
  unfold get?
  induction entries with
  | nil => rfl
  | cons head tail ih =>
      rw [List.find?_cons, List.lookup_cons, ih]
      by_cases same : head.1 = name
      · subst same
        simp
      · simp [same, beq_eq_false_iff_ne.mpr (Ne.symm same)]

theorem insertStores_orderedMap :
    (orderedMap : OrderedMap (Registry α) α).InsertStores where
  empty := rfl
  insert := by
    intro registry name value
    have stored := stores_upsert Prod.fst (name, value) registry.entries
    rwa [find?_entries] at stored

end Registry

namespace RoleGroup

theorem ofRoles_concat (name : String) (history : List Role) (role : Role) :
    ofRoles name (history ++ [role]) =
      ((ofRoles name history).addMember role).2 := by
  rw [ofRoles, List.foldl_append, ofRoles]
  rfl

/-- The members of a group are stored one after the other. -/
theorem ofRoles_eq (name : String) (history : List Role) :
    ofRoles name history =
      { name, members := Registry.orderedMap.run Role.name history } := by
  induction history using List.reverseRecOn with
  | nil => rfl
  | append_singleton history role ih =>
      rw [ofRoles_concat, ih, OrderedMap.run_concat]
      rfl

-- A member that is added again, with an index, keeps its place.
example :
    (ofRoles "Workers" [{ name := "A" }, { name := "B" },
        { name := "A", dimensions := [.var "k"] }]).members.values =
      [{ name := "A", dimensions := [.var "k"] }, { name := "B" }] := by
  decide

end RoleGroup

/-- A role or a group that a session is told of. -/
inductive Declaration where
  | role (declared : Role)
  | group (declared : RoleGroup)

namespace Declaration

def role? : Declaration → Option Role
  | role declared => some declared
  | group _ => none

def group? : Declaration → Option RoleGroup
  | role _ => none
  | group declared => some declared

end Declaration

namespace Session

/-- The session after a declaration. -/
def declare (session : Session) : Declaration → Session
  | .role declared => (session.addRole declared).2
  | .group declared => (session.addGroup declared).2

/-- A new session after the given declarations, one after the other. -/
def ofDeclarations (name : String) (history : List Declaration) : Session :=
  history.foldl declare { name }

theorem ofDeclarations_concat (name : String) (history : List Declaration)
    (declaration : Declaration) :
    ofDeclarations name (history ++ [declaration]) =
      (ofDeclarations name history).declare declaration := by
  rw [ofDeclarations, List.foldl_append, ofDeclarations]
  rfl

/-- Roles and groups are stored one after the other, however their declarations
alternate, and nothing else changes. -/
theorem ofDeclarations_eq (name : String) (history : List Declaration) :
    ofDeclarations name history =
      { name,
        roles := Registry.orderedMap.run Role.name
          (history.filterMap Declaration.role?),
        groups := Registry.orderedMap.run RoleGroup.name
          (history.filterMap Declaration.group?) } := by
  induction history using List.reverseRecOn with
  | nil => rfl
  | append_singleton history declaration ih =>
      rw [ofDeclarations_concat, ih, List.filterMap_append, List.filterMap_append]
      cases declaration <;>
        simp only [List.filterMap_cons, List.filterMap_nil, Declaration.role?,
          Declaration.group?, List.append_nil, OrderedMap.run_concat] <;>
        rfl

end Session

/-- A call that extends an interruptible scope. -/
inductive ScopeCall where
  | append (node : Protocol)
  | interrupt (trigger : Role) (handler : List Protocol)

namespace ScopeCall

/-- The node after a call. -/
def applyTo (protocol : Protocol) : ScopeCall → Except KindMismatch Protocol
  | append node => protocol.appendChild node
  | interrupt trigger handler => protocol.addInterrupt trigger handler

def appended? : ScopeCall → Option Protocol
  | append node => some node
  | interrupt _ _ => none

def interrupt? : ScopeCall → Option (Interrupt Protocol)
  | append _ => none
  | interrupt trigger handler => some ⟨trigger, handler⟩

end ScopeCall

namespace Protocol

/-- A scope accepts every sequence of calls.  Its body is extended in their
order, and its interrupts are recorded as they were set. -/
theorem exists_scope_after_calls (scope : String) (body : List Protocol)
    (calls : List ScopeCall) :
    ∃ interrupts,
      calls.foldlM ScopeCall.applyTo (interruptible scope body []) =
          .ok (interruptible scope
            (body ++ calls.filterMap ScopeCall.appended?) interrupts) ∧
        LastWrites (fun interrupt => interrupt.trigger.name)
          (calls.filterMap ScopeCall.interrupt?) interrupts := by
  induction calls using List.reverseRecOn with
  | nil =>
      refine ⟨[], ?_, .nil _⟩
      rw [List.filterMap_nil, List.append_nil]
      rfl
  | append_singleton calls call ih =>
      obtain ⟨interrupts, run, writes⟩ := ih
      simp only [List.foldlM_append, run, List.filterMap_append]
      cases call with
      | append node =>
          refine ⟨interrupts, ?_, ?_⟩
          · rw [← List.append_assoc]
            rfl
          · rw [List.filterMap_cons_none rfl, List.filterMap_nil, List.append_nil]
            exact writes
      | interrupt trigger handler =>
          have stored := stores_upsert (fun interrupt => interrupt.trigger.name)
            (Interrupt.mk trigger handler) interrupts
          refine ⟨_, ?_, writes.store stored⟩
          rw [List.filterMap_cons_none rfl, List.filterMap_nil, List.append_nil]
          rfl

end Protocol

/-- Collections keyed by name hold the last item of each name in the order in
which the names came up first: the interrupts of a scope, whose body meanwhile
grows by the appended nodes, and whatever is stored in an ordered map, such as
the members of a group, and the roles and groups of a session.  A call that
stores a value returns what it replaces. -/
theorem collections_keep_last_writes :
    (∀ (scope : String) (body : List Protocol) (calls : List ScopeCall),
      ∃ interrupts,
        calls.foldlM ScopeCall.applyTo (.interruptible scope body []) =
            .ok (.interruptible scope
              (body ++ calls.filterMap ScopeCall.appended?) interrupts) ∧
          LastWrites (fun interrupt => interrupt.trigger.name)
            (calls.filterMap ScopeCall.interrupt?) interrupts) ∧
    (∀ (μ α : Type) (map : OrderedMap μ α), map.InsertStores →
      ∀ (nameOf : α → String) (history : List α),
        let state := map.run nameOf history
        Records nameOf history (map.entries state) ∧
        ∀ value,
          let call := map.insert state (nameOf value) value
          Replaces nameOf history (map.entries state) value call.1
            (map.entries call.2)) ∧
    (∀ (name : String) (history : List Role),
      let group := RoleGroup.ofRoles name history
      group = { name, members := Registry.orderedMap.run Role.name history } ∧
      Records Role.name history group.members.entries ∧
      ∀ role, Replaces Role.name history group.members.entries role
        (group.addMember role).1 (group.addMember role).2.members.entries) ∧
    (∀ (name : String) (history : List Declaration),
      let session := Session.ofDeclarations name history
      let roles := history.filterMap Declaration.role?
      let groups := history.filterMap Declaration.group?
      session =
        { name,
          roles := Registry.orderedMap.run Role.name roles,
          groups := Registry.orderedMap.run RoleGroup.name groups } ∧
      Records Role.name roles session.roles.entries ∧
      Records RoleGroup.name groups session.groups.entries ∧
      (∀ role, Replaces Role.name roles session.roles.entries role
        (session.addRole role).1 (session.addRole role).2.roles.entries) ∧
      (∀ group, Replaces RoleGroup.name groups session.groups.entries group
        (session.addGroup group).1
          (session.addGroup group).2.groups.entries)) := by
  refine ⟨Protocol.exists_scope_after_calls, ?_, ?_, ?_⟩
  · intro μ α map stores nameOf history state
    exact ⟨stores.records_run nameOf history,
      stores.replaces_run nameOf history⟩
  · intro name history group
    have stored : group = _ := RoleGroup.ofRoles_eq name history
    have stores := Registry.insertStores_orderedMap (α := Role)
    refine ⟨stored, ?_⟩
    rw [stored]
    exact ⟨stores.records_run Role.name history,
      stores.replaces_run Role.name history⟩
  · intro name history session roles groups
    have stored : session = _ := Session.ofDeclarations_eq name history
    have storesRoles := Registry.insertStores_orderedMap (α := Role)
    have storesGroups := Registry.insertStores_orderedMap (α := RoleGroup)
    refine ⟨stored, ?_⟩
    rw [stored]
    exact ⟨storesRoles.records_run Role.name roles,
      storesGroups.records_run RoleGroup.name groups,
      storesRoles.replaces_run Role.name roles,
      storesGroups.replaces_run RoleGroup.name groups⟩

/-- `A` is stored again with an index, and then `B`, which returns the earlier
one. -/
theorem collections_keep_last_writes_in_registries :
    let map : OrderedMap (Registry Role) Role := Registry.orderedMap
    let history : List Role :=
      [{ name := "A" }, { name := "B" }, { name := "A", dimensions := [.var "k"] }]
    let state := map.run Role.name history
    let again : Role := { name := "B", dimensions := [.lit 3] }
    map.InsertStores ∧ Records Role.name history (map.entries state) ∧
      (map.insert state again.name again).1 = some { name := "B" } := by
  intro map history state again
  have stores : map.InsertStores := Registry.insertStores_orderedMap
  obtain ⟨records, replaces⟩ :=
    collections_keep_last_writes.2.1 _ _ map stores Role.name history
  have earlier : latest? Role.name history again.name = some { name := "B" } := by
    decide
  exact ⟨stores, records, (replaces again).latest.trans earlier⟩

end Multiparty
