import Multiparty.Comparison.Window

/-!
# The greedy search for counterparts

`Takes` and `Matches` describe successful searches: which free right action
each left action takes.  A matching pairs actions that agree, uses every right
action at most once, and moves a left action only past right actions that do
not block it.  Conversely, a pairing with these properties is the one that the
search finds, provided that an action always blocks what agrees with it: no
left action can then take an earlier right action than its own.  A search goes
the same way among other actions that agree alike and block each other alike,
and it is still successful if they block each other less.
-/

namespace Multiparty

/-- The result of a search among replaced actions. -/
def Search.map (replace : Action → Action) : Search → Search
  | taken free => taken (free.map (Prod.map id replace))
  | blocked position => blocked position
  | absent => absent

namespace Config

variable {config : Config}

/-- A left action takes the first free action that agrees with it, if nothing
in front of that one blocks the way. -/
inductive Takes (config : Config) (left : Action) (chosen : Nat × Action) :
    List (Nat × Action) → List (Nat × Action) → Prop where
  | here {rest : List (Nat × Action)} :
      config.sameAction left chosen.2 = true →
      Takes config left chosen (chosen :: rest) rest
  | there {other : Nat × Action} {free rest : List (Nat × Action)} :
      config.sameAction left other.2 = false →
      config.blocks left other.2 = false →
      Takes config left chosen free rest →
      Takes config left chosen (other :: free) (other :: rest)

/-- The left actions take free right actions one after the other. -/
inductive Matches (config : Config) :
    List (Nat × Action) → List (Action × Nat × Action) → Prop where
  | nil {free : List (Nat × Action)} : Matches config free []
  | cons {left : Action} {chosen : Nat × Action}
      {free rest : List (Nat × Action)} {pairs : List (Action × Nat × Action)} :
      Takes config left chosen free rest →
      Matches config rest pairs →
      Matches config free ((left, chosen) :: pairs)

theorem search_eq_taken_iff {left : Action} {free rest : List (Nat × Action)} :
    config.search left free = .taken rest ↔
      ∃ chosen, Takes config left chosen free rest := by
  induction free generalizing rest with
  | nil =>
      constructor
      · simp [search]
      · rintro ⟨_, taken⟩
        cases taken
  | cons head tail ih =>
      obtain ⟨position, right⟩ := head
      constructor
      · intro found
        rw [search] at found
        split at found
        case isTrue same =>
          cases found
          exact ⟨(position, right), .here same⟩
        case isFalse different =>
          split at found
          case isTrue => cases found
          case isFalse unblocked =>
            cases later : config.search left tail with
            | taken others =>
                rw [later] at found
                cases found
                obtain ⟨chosen, taken⟩ := ih.mp later
                exact ⟨chosen, .there (by simpa using different)
                  (by simpa using unblocked) taken⟩
            | blocked => simp [later] at found
            | absent => simp [later] at found
      · rintro ⟨chosen, taken⟩
        cases taken with
        | here same => simp [search, same]
        | there different unblocked later =>
            simp [search, different, unblocked, ih.mpr ⟨chosen, later⟩]

/-- Nothing is marked exactly if every left action takes a right action. -/
theorem matchActions_eq_nil_iff {position : Nat} {free : List (Nat × Action)}
    {lefts : List Action} :
    config.matchActions position free lefts = [] ↔
      ∃ pairs, Matches config free pairs ∧ pairs.map Prod.fst = lefts := by
  induction lefts generalizing position free with
  | nil =>
      constructor
      · intro _
        exact ⟨[], .nil, rfl⟩
      · intro _
        rfl
  | cons left rest ih =>
      constructor
      · intro unmarked
        rw [matchActions] at unmarked
        cases found : config.search left free with
        | taken others =>
            rw [found] at unmarked
            obtain ⟨chosen, taken⟩ := search_eq_taken_iff.mp found
            obtain ⟨pairs, matched, paired⟩ := ih.mp unmarked
            exact ⟨(left, chosen) :: pairs, .cons taken matched, by simp [paired]⟩
        | blocked => simp [found] at unmarked
        | absent => simp [found] at unmarked
      · rintro ⟨pairs, matched, paired⟩
        cases matched with
        | nil => cases paired
        | cons taken later =>
            simp only [List.map_cons, List.cons.injEq] at paired
            obtain ⟨rfl, paired⟩ := paired
            rw [matchActions, search_eq_taken_iff.mpr ⟨_, taken⟩]
            exact ih.mpr ⟨_, later, paired⟩

namespace Takes

variable {left : Action} {chosen : Nat × Action}
  {free rest : List (Nat × Action)}

theorem same (taken : Takes config left chosen free rest) :
    config.sameAction left chosen.2 = true := by
  induction taken with
  | here same => exact same
  | there _ _ _ ih => exact ih

theorem perm (taken : Takes config left chosen free rest) :
    free.Perm (chosen :: rest) := by
  induction taken with
  | here => exact List.Perm.refl _
  | there _ _ _ ih => exact (ih.cons _).trans (List.Perm.swap _ _ _)

theorem sublist (taken : Takes config left chosen free rest) :
    rest.Sublist free := by
  induction taken with
  | here => exact List.sublist_cons_self _ _
  | there _ _ _ ih => exact ih.cons_cons _

end Takes

/-- The right actions stand in increasing order of their positions. -/
def InOrder (free : List (Nat × Action)) : Prop :=
  free.Pairwise fun earlier later => earlier.1 < later.1

/-- What a left action passes does not block it. -/
theorem Takes.passes {left : Action} {chosen : Nat × Action}
    {free rest : List (Nat × Action)}
    (taken : Takes config left chosen free rest) (ordered : InOrder free)
    {other : Nat × Action} (member : other ∈ rest)
    (passed : other.1 < chosen.1) : config.blocks left other.2 = false := by
  induction taken with
  | here =>
      have after : chosen.1 < other.1 := List.rel_of_pairwise_cons ordered member
      omega
  | there _ unblocked _ ih =>
      rcases List.mem_cons.mp member with rfl | later
      · exact unblocked
      · exact ih ordered.of_cons later

/-- An action is taken if everything in front of it is passed. -/
theorem exists_takes {left : Action} {chosen : Nat × Action}
    {free : List (Nat × Action)} (ordered : InOrder free)
    (member : chosen ∈ free)
    (same : config.sameAction left chosen.2 = true)
    (passed : ∀ other ∈ free, other.1 < chosen.1 →
      config.sameAction left other.2 = false ∧
        config.blocks left other.2 = false) :
    ∃ rest, Takes config left chosen free rest := by
  induction free with
  | nil => cases member
  | cons head tail ih =>
      rcases List.mem_cons.mp member with rfl | later
      · exact ⟨tail, .here same⟩
      · have before : head.1 < chosen.1 :=
          List.rel_of_pairwise_cons ordered later
        obtain ⟨different, unblocked⟩ :=
          passed head List.mem_cons_self before
        obtain ⟨rest, taken⟩ := ih ordered.of_cons later fun other inTail =>
          passed other (List.mem_cons_of_mem _ inTail)
        exact ⟨head :: rest, .there different unblocked taken⟩

namespace Matches

variable {free : List (Nat × Action)} {pairs : List (Action × Nat × Action)}

theorem same (matched : Matches config free pairs) :
    ∀ pair ∈ pairs, config.sameAction pair.1 pair.2.2 = true := by
  induction matched with
  | nil => simp
  | cons taken _ ih =>
      rw [List.forall_mem_cons]
      exact ⟨taken.same, ih⟩

/-- Every right action is taken at most once. -/
theorem perm (matched : Matches config free pairs) :
    ∃ rest, free.Perm (pairs.map Prod.snd ++ rest) := by
  induction matched with
  | nil => exact ⟨_, List.Perm.refl _⟩
  | cons taken _ ih =>
      obtain ⟨rest, later⟩ := ih
      exact ⟨rest, taken.perm.trans (later.cons _)⟩

/-- If two actions change their order, the first does not block the second. -/
theorem unblocked (matched : Matches config free pairs)
    (ordered : InOrder free) :
    pairs.Pairwise fun earlier later =>
      later.2.1 < earlier.2.1 → config.blocks earlier.1 later.2.2 = false := by
  induction matched with
  | nil => exact .nil
  | @cons _ _ _ _ pairs taken later ih =>
      refine .cons ?_ (ih (ordered.sublist taken.sublist))
      intro pair member passed
      obtain ⟨rest, permutation⟩ := later.perm
      have inRest : pair.2 ∈ pairs.map Prod.snd := List.mem_map_of_mem member
      exact taken.passes ordered
        (permutation.mem_iff.mpr (List.mem_append_left _ inRest)) passed

end Matches

/-- A pairing of all right actions is found by the search if actions change
their order only where they may, and agreeing actions block each other. -/
theorem matches_of_unblocked {free : List (Nat × Action)}
    {pairs : List (Action × Nat × Action)} (ordered : InOrder free)
    (covered : (pairs.map Prod.snd).Perm free)
    (same : ∀ pair ∈ pairs, config.sameAction pair.1 pair.2.2 = true)
    (unblocked : pairs.Pairwise fun earlier later =>
      later.2.1 < earlier.2.1 → config.blocks earlier.1 later.2.2 = false)
    (guarded : ∀ pair ∈ pairs, ∀ right,
      config.sameAction pair.1 right = true →
        config.blocks pair.1 right = true) :
    Matches config free pairs := by
  induction pairs generalizing free with
  | nil => exact .nil
  | cons pair pairs ih =>
      obtain ⟨left, chosen⟩ := pair
      rw [List.forall_mem_cons] at same guarded
      rw [List.pairwise_cons] at unblocked
      have member : chosen ∈ free := covered.subset List.mem_cons_self
      have passed : ∀ other ∈ free, other.1 < chosen.1 →
          config.sameAction left other.2 = false ∧
            config.blocks left other.2 = false := by
        intro other inFree before
        -- the other one is still free, so it belongs to a later pair
        have notChosen : other ≠ chosen := by
          rintro rfl
          omega
        have later : other ∈ pairs.map Prod.snd :=
          (List.mem_cons.mp (covered.mem_iff.mpr inFree)).resolve_left notChosen
        obtain ⟨pair, inPairs, rfl⟩ := List.mem_map.mp later
        have clear : config.blocks left pair.2.2 = false :=
          unblocked.1 pair inPairs before
        refine ⟨?_, clear⟩
        rw [Bool.eq_false_iff]
        intro agrees
        rw [guarded.1 _ agrees] at clear
        cases clear
      obtain ⟨rest, taken⟩ := exists_takes ordered member same.1 passed
      refine .cons taken (ih (ordered.sublist taken.sublist) ?_ same.2
        unblocked.2 guarded.2)
      exact (covered.trans taken.perm).cons_inv

/-! ## Replaced actions -/

section Replacement

variable {config' : Config} {replace : Action → Action} {left : Action}
  {free : List (Nat × Action)}

theorem search_map
    (same : ∀ entry ∈ free,
      config'.sameAction (replace left) (replace entry.2) =
        config.sameAction left entry.2)
    (blocks : ∀ entry ∈ free,
      config'.blocks (replace left) (replace entry.2) =
        config.blocks left entry.2) :
    config'.search (replace left) (free.map (Prod.map id replace)) =
      (config.search left free).map replace := by
  induction free with
  | nil => rfl
  | cons head tail ih =>
      obtain ⟨position, right⟩ := head
      rw [List.forall_mem_cons] at same blocks
      rw [List.map_cons, Prod.map_apply, id, search, search, same.1, blocks.1,
        ih same.2 blocks.2]
      split
      case isTrue => rfl
      case isFalse =>
        split
        case isTrue => rfl
        case isFalse => cases config.search left tail <;> rfl

theorem matchActions_map {position : Nat} {lefts : List Action}
    (same : ∀ left ∈ lefts, ∀ entry ∈ free,
      config'.sameAction (replace left) (replace entry.2) =
        config.sameAction left entry.2)
    (blocks : ∀ left ∈ lefts, ∀ entry ∈ free,
      config'.blocks (replace left) (replace entry.2) =
        config.blocks left entry.2) :
    config'.matchActions position (free.map (Prod.map id replace))
      (lefts.map replace) = config.matchActions position free lefts := by
  induction lefts generalizing position free with
  | nil => rfl
  | cons left lefts ih =>
      rw [List.forall_mem_cons] at same blocks
      rw [List.map_cons, matchActions, matchActions, search_map same.1 blocks.1]
      cases found : config.search left free with
      | taken others =>
          obtain ⟨chosen, taken⟩ := search_eq_taken_iff.mp found
          have within : others ⊆ free := taken.sublist.subset
          apply ih
          · intro other inLefts entry inOthers
            exact same.2 other inLefts entry (within inOthers)
          · intro other inLefts entry inOthers
            exact blocks.2 other inLefts entry (within inOthers)
      | blocked blocker => simp only [Search.map, ih same.2 blocks.2]
      | absent => simp only [Search.map, ih same.2 blocks.2]

/-- A search is also successful where fewer actions block the way. -/
theorem Takes.map {chosen : Nat × Action} {rest : List (Nat × Action)}
    (taken : Takes config left chosen free rest)
    (same : ∀ entry ∈ free,
      config'.sameAction (replace left) (replace entry.2) =
        config.sameAction left entry.2)
    (blocks : ∀ entry ∈ free,
      config'.blocks (replace left) (replace entry.2) = true →
        config.blocks left entry.2 = true) :
    Takes config' (replace left) (chosen.map id replace)
      (free.map (Prod.map id replace)) (rest.map (Prod.map id replace)) := by
  induction taken with
  | here agrees =>
      rw [List.forall_mem_cons] at same
      exact .here (same.1.trans agrees)
  | there differs unblocked _ ih =>
      rw [List.forall_mem_cons] at same blocks
      refine .there (same.1.trans differs) ?_ (ih same.2 blocks.2)
      rw [Bool.eq_false_iff] at unblocked ⊢
      exact fun blocked => unblocked (blocks.1 blocked)

theorem Matches.map {pairs : List (Action × Nat × Action)}
    (matched : Matches config free pairs)
    (same : ∀ pair ∈ pairs, ∀ entry ∈ free,
      config'.sameAction (replace pair.1) (replace entry.2) =
        config.sameAction pair.1 entry.2)
    (blocks : ∀ pair ∈ pairs, ∀ entry ∈ free,
      config'.blocks (replace pair.1) (replace entry.2) = true →
        config.blocks pair.1 entry.2 = true) :
    Matches config' (free.map (Prod.map id replace))
      (pairs.map (Prod.map replace (Prod.map id replace))) := by
  induction matched with
  | nil => exact .nil
  | cons taken _ ih =>
      rw [List.forall_mem_cons] at same blocks
      have within := taken.sublist.subset
      refine .cons (taken.map same.1 blocks.1) (ih ?_ ?_)
      · intro pair inPairs entry inRest
        exact same.2 pair inPairs entry (within inRest)
      · intro pair inPairs entry inRest
        exact blocks.2 pair inPairs entry (within inRest)

theorem matchActions_map_eq_nil {position : Nat} {lefts : List Action}
    (unmarked : config.matchActions position free lefts = [])
    (same : ∀ left ∈ lefts, ∀ entry ∈ free,
      config'.sameAction (replace left) (replace entry.2) =
        config.sameAction left entry.2)
    (blocks : ∀ left ∈ lefts, ∀ entry ∈ free,
      config'.blocks (replace left) (replace entry.2) = true →
        config.blocks left entry.2 = true) :
    config'.matchActions position (free.map (Prod.map id replace))
      (lefts.map replace) = [] := by
  obtain ⟨pairs, matched, rfl⟩ := matchActions_eq_nil_iff.mp unmarked
  rw [List.forall_mem_map] at same blocks
  refine matchActions_eq_nil_iff.mpr ⟨_, matched.map same blocks, ?_⟩
  simp [Function.comp_def]

end Replacement

end Config

end Multiparty
