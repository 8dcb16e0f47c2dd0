import Multiparty.Proofs.Binding
import Multiparty.Proofs.Reordering

/-!
# Where jumps return to

A jump returns to the innermost enclosing loop that carries its label.  Trees
between which comparison finds no difference have their jumps at the same
paths, each below loops at the same paths and of the same kinds.  Labels are not
compared, so that two such jumps may still choose different ones of these loops.
They return to the same loop exactly if the two labels correspond from that loop
inwards: it carries them, and no loop inside it carries one of them.  Loops
further out may reuse a label as they like.  If there is only one loop to return
to, the jumps always return to the same one.
-/

namespace Multiparty

variable {config : Config}

/-- Two loops are recursions, or run one variable. -/
inductive LoopHead.SameKind : LoopHead → LoopHead → Prop where
  | recursion {label label' : String} :
      SameKind (.recursion label) (.recursion label')
  | forEach {index : String} {range range' : Expr} :
      SameKind (.forEach index range) (.forEach index range')

namespace Protocol

/-- The head of the outermost node, if it is a loop. -/
def loopHead? : Protocol → Option LoopHead
  | loop head _ => some head
  | _ => none

theorem loopHead?_eq_some_iff {protocol : Protocol} {head : LoopHead} :
    protocol.loopHead? = some head ↔ ∃ body, protocol = loop head body := by
  cases protocol <;> simp [loopHead?]

/-- A loop with the given head stands at `front`, which lies strictly above
`path`. -/
def EnclosedBy (protocol : Protocol) (path front : Path)
    (head : LoopHead) : Prop :=
  front <+: path ∧ front ≠ path ∧
    ∃ body, protocol.at? front = some (loop head body)

/-- The loop at `front` is the innermost one around `path` that carries the
label. -/
structure ReturnsTo (protocol : Protocol) (path : Path) (label : String)
    (front : Path) : Prop where
  carried : ∃ head, protocol.EnclosedBy path front head ∧ head.binder = label
  innermost : ∀ other head, protocol.EnclosedBy path other head →
    head.binder = label → other <+: front

theorem EnclosedBy.head_eq {protocol : Protocol} {path front : Path}
    {head head' : LoopHead} (enclosed : protocol.EnclosedBy path front head)
    (enclosed' : protocol.EnclosedBy path front head') : head = head' := by
  obtain ⟨_, _, _, found⟩ := enclosed
  obtain ⟨_, _, _, found'⟩ := enclosed'
  rw [found] at found'
  cases found'
  rfl

theorem boundAt_iff_enclosedBy {protocol : Protocol} {path : Path}
    {label : String} :
    protocol.BoundAt path label ↔
      ∃ front head, protocol.EnclosedBy path front head ∧
        head.binder = label := by
  constructor
  · intro bound
    obtain ⟨front, above, proper, head, body, found, named⟩ := bound
    exact ⟨front, head, ⟨above, proper, body, found⟩, named⟩
  · intro enclosed
    obtain ⟨front, head, ⟨above, proper, body, found⟩, named⟩ := enclosed
    exact ⟨front, above, proper, head, body, found, named⟩

theorem enclosedBy_concat_iff {protocol : Protocol} {path front : Path}
    {position : Nat} {head : LoopHead} :
    protocol.EnclosedBy (path ++ [position]) front head ↔
      front <+: path ∧ ∃ body, protocol.at? front = some (loop head body) := by
  constructor
  · intro enclosed
    obtain ⟨above, proper, found⟩ := enclosed
    rcases List.prefix_concat_iff.mp above with whole | shorter
    · exact absurd whole proper
    · exact ⟨shorter, found⟩
  · intro enclosed
    obtain ⟨above, found⟩ := enclosed
    refine ⟨above.trans (List.prefix_append path [position]), ?_, found⟩
    intro whole
    have shorter : front.length ≤ path.length := above.length_le
    rw [whole, List.length_append, List.length_singleton] at shorter
    omega

theorem EnclosedBy.front_cases {protocol : Protocol} {outer inner : Nat}
    {front : Path} {head : LoopHead}
    (enclosed : protocol.EnclosedBy [outer, inner] front head) :
    front = [] ∨ front = [outer] := by
  have listed : front ∈ [outer, inner].inits :=
    (List.mem_inits _ _).mpr enclosed.1
  simpa [enclosed.2.1] using listed

theorem returnsTo_parent {protocol : Protocol} {path : Path} {position : Nat}
    {head : LoopHead} {body : List Protocol}
    (found : protocol.at? path = some (loop head body)) :
    protocol.ReturnsTo (path ++ [position]) head.binder path := by
  have direct : protocol.EnclosedBy (path ++ [position]) path head :=
    enclosedBy_concat_iff.mpr ⟨List.prefix_refl path, body, found⟩
  refine ⟨⟨head, direct, rfl⟩, ?_⟩
  intro other head enclosed _
  exact (enclosedBy_concat_iff.mp enclosed).1

/-- A label that is bound is bound by an innermost loop. -/
theorem exists_returnsTo {protocol : Protocol} {path : Path} {label : String}
    (bound : protocol.BoundAt path label) :
    ∃ front, protocol.ReturnsTo path label front := by
  induction path using List.reverseRecOn with
  | nil => exact absurd bound (not_boundAt_nil protocol label)
  | append_singleton path position ih =>
      -- The loop directly above is the innermost one, if it carries the label;
      -- otherwise only the loops above that one count.
      by_cases here : ∃ head body,
          protocol.at? path = some (loop head body) ∧ head.binder = label
      · obtain ⟨head, body, found, rfl⟩ := here
        exact ⟨path, returnsTo_parent found⟩
      · have further : ∀ front head,
            protocol.EnclosedBy (path ++ [position]) front head →
              head.binder = label → protocol.EnclosedBy path front head := by
          intro front head enclosed named
          obtain ⟨above, body, found⟩ := enclosedBy_concat_iff.mp enclosed
          refine ⟨above, ?_, body, found⟩
          intro whole
          rw [whole] at found
          exact here ⟨head, body, found, named⟩
        obtain ⟨front, head, enclosed, named⟩ := boundAt_iff_enclosedBy.mp bound
        have boundAbove : protocol.BoundAt path label :=
          boundAt_iff_enclosedBy.mpr
            ⟨front, head, further front head enclosed named, named⟩
        obtain ⟨target, returns⟩ := ih boundAbove
        obtain ⟨targetHead, ⟨above, _, found⟩, carries⟩ := returns.carried
        refine ⟨target, ⟨targetHead, ?_, carries⟩, ?_⟩
        · exact enclosedBy_concat_iff.mpr ⟨above, found⟩
        · intro other head enclosed named
          exact returns.innermost other head (further other head enclosed named)
            named

theorem ReturnsTo.unique {protocol : Protocol} {path front other : Path}
    {label : String} (returns : protocol.ReturnsTo path label front)
    (returns' : protocol.ReturnsTo path label other) : front = other := by
  obtain ⟨head, enclosed, named⟩ := returns.carried
  obtain ⟨head', enclosed', named'⟩ := returns'.carried
  have deeper : front <+: other := returns'.innermost front head enclosed named
  have shallower : other <+: front :=
    returns.innermost other head' enclosed' named'
  exact deeper.eq_of_length_le shallower.length_le

/-- From the loop to which a jump returns inwards, no other loop carries the
label. -/
theorem ReturnsTo.binder_eq_iff {protocol : Protocol} {path front other : Path}
    {label : String} {head : LoopHead}
    (returns : protocol.ReturnsTo path label front) (inward : front <+: other)
    (enclosed : protocol.EnclosedBy path other head) :
    head.binder = label ↔ other = front := by
  constructor
  · intro named
    have outward : other <+: front :=
      returns.innermost other head enclosed named
    exact outward.eq_of_length_le inward.length_le
  · rintro rfl
    obtain ⟨target, atFront, named⟩ := returns.carried
    rw [enclosed.head_eq atFront, named]

/-- Nodes that agree are both loops of one kind, or both none. -/
theorem loops_of_sameHeader {left right : Protocol}
    (header : config.sameHeader left right = true) :
    (∃ head body head' body', left = loop head body ∧
      right = loop head' body' ∧ head.SameKind head') ∨
      (left.isLoop = false ∧ right.isLoop = false) := by
  cases Config.sameHeader_iff.mp header with
  | recursion => exact .inl ⟨_, _, _, _, rfl, rfl, .recursion⟩
  | forEach => exact .inl ⟨_, _, _, _, rfl, rfl, .forEach⟩
  | _ => exact .inr ⟨rfl, rfl⟩

/-- From the path `outermost` inwards, opposite loops around `path` carry the
left label and the right label alike. -/
def LabelsCorrespond (left right : Protocol) (path outermost : Path)
    (label label' : String) : Prop :=
  ∀ front head head', outermost <+: front → left.EnclosedBy path front head →
    right.EnclosedBy path front head' →
      (head.binder = label ↔ head'.binder = label')

theorem labelsCorrespond_iff_inits {left right : Protocol}
    {path outermost : Path} {label label' : String} :
    LabelsCorrespond left right path outermost label label' ↔
      ∀ front ∈ path.inits, outermost <+: front → front ≠ path →
        ∀ outer ∈ left.at? front, ∀ opposite ∈ right.at? front,
          ∀ head ∈ outer.loopHead?, ∀ head' ∈ opposite.loopHead?,
            (head.binder = label ↔ head'.binder = label') := by
  simp only [List.mem_inits, Option.mem_def, loopHead?_eq_some_iff]
  constructor
  · rintro correspond front above inward proper _ found _ found' head ⟨body, rfl⟩
      head' ⟨body', rfl⟩
    exact correspond front head head' inward ⟨above, proper, body, found⟩
      ⟨above, proper, body', found'⟩
  · rintro listed front head head' inward ⟨above, proper, body, found⟩
      ⟨_, _, body', found'⟩
    exact listed front above inward proper _ found _ found' head ⟨body, rfl⟩
      head' ⟨body', rfl⟩

instance {left right : Protocol} {path outermost : Path}
    {label label' : String} :
    Decidable (LabelsCorrespond left right path outermost label label') :=
  decidable_of_iff _ labelsCorrespond_iff_inits.symm

/-- At most one loop encloses the path. -/
def InSingleLoop (protocol : Protocol) (path : Path) : Prop :=
  ∀ front other head head', protocol.EnclosedBy path front head →
    protocol.EnclosedBy path other head' → front = other

namespace Equivalent

theorem enclosing {left right node : Protocol} {path front : Path}
    (equivalent : Equivalent config left right)
    (located : left.at? path = some node) (above : front <+: path)
    (proper : front ≠ path) :
    ∃ outer counterpart, left.at? front = some outer ∧
      right.at? front = some counterpart ∧
        config.sameHeader outer counterpart = true := by
  obtain ⟨rest, rfl⟩ := above
  rw [at?_append, Option.bind_eq_some_iff] at located
  obtain ⟨outer, found, below⟩ := located
  -- Something lies below the outer node, so it is no action.
  have notAction : outer.isAction = false := by
    cases rest with
    | nil => exact absurd (List.append_nil front).symm proper
    | cons position rest =>
        cases outer with
        | perform action => cases below
        | _ => rfl
  obtain ⟨counterpart, rightFound, outerEquivalent⟩ :=
    equivalent.subtree found notAction
  exact ⟨outer, counterpart, found, rightFound, outerEquivalent.header⟩

/-- A loop around a path has an opposite loop of its kind, whichever side it
stands on. -/
theorem enclosedBy {left right node : Protocol} {path front : Path}
    {known : LoopHead} (equivalent : Equivalent config left right)
    (located : left.at? path = some node)
    (enclosed : left.EnclosedBy path front known ∨
      right.EnclosedBy path front known) :
    ∃ head head', left.EnclosedBy path front head ∧
      right.EnclosedBy path front head' ∧ head.SameKind head' := by
  have around : front <+: path ∧ front ≠ path := by
    rcases enclosed with onLeft | onRight
    · exact ⟨onLeft.1, onLeft.2.1⟩
    · exact ⟨onRight.1, onRight.2.1⟩
  obtain ⟨outer, counterpart, leftFound, rightFound, header⟩ :=
    equivalent.enclosing located around.1 around.2
  rcases loops_of_sameHeader header with loops | noLoops
  · obtain ⟨head, body, head', body', rfl, rfl, sameKind⟩ := loops
    exact ⟨head, head', ⟨around.1, around.2, body, leftFound⟩,
      ⟨around.1, around.2, body', rightFound⟩, sameKind⟩
  · exfalso
    rcases enclosed with onLeft | onRight
    · obtain ⟨_, _, body, found⟩ := onLeft
      rw [leftFound] at found
      cases found
      cases noLoops.1
    · obtain ⟨_, _, body, found⟩ := onRight
      rw [rightFound] at found
      cases found
      cases noLoops.2

theorem jump {left right : Protocol} {path : Path} {label : String}
    (equivalent : Equivalent config left right)
    (located : left.at? path = some (.jump label)) :
    ∃ label', right.at? path = some (.jump label') := by
  obtain ⟨counterpart, found, jumps⟩ := equivalent.subtree located rfl
  have header := jumps.header
  cases counterpart with
  | jump label' => exact ⟨label', found⟩
  | _ => cases header

/-- Jumps return to the same loop exactly if their labels correspond from there
inwards. -/
theorem labelsCorrespond_iff {left right node : Protocol}
    {path front front' : Path} {label label' : String}
    (equivalent : Equivalent config left right)
    (located : left.at? path = some node)
    (returns : left.ReturnsTo path label front)
    (returns' : right.ReturnsTo path label' front') :
    LabelsCorrespond left right path front label label' ↔ front = front' := by
  constructor
  · intro correspond
    obtain ⟨head, enclosed, named⟩ := returns.carried
    obtain ⟨head', enclosed', named'⟩ := returns'.carried
    obtain ⟨_, opposite, _, onRight, _⟩ :=
      equivalent.enclosedBy located (.inl enclosed)
    obtain ⟨opposite', _, onLeft, _, _⟩ :=
      equivalent.enclosedBy located (.inr enclosed')
    have inward : front <+: front' := by
      apply returns'.innermost front opposite onRight
      exact (correspond front head opposite (List.prefix_refl front) enclosed
        onRight).mp named
    have alsoNamed : opposite'.binder = label :=
      (correspond front' opposite' head' inward onLeft enclosed').mpr named'
    exact ((returns.binder_eq_iff inward onLeft).mp alsoNamed).symm
  · rintro rfl other head head' inward enclosed enclosed'
    rw [returns.binder_eq_iff inward enclosed,
      returns'.binder_eq_iff inward enclosed']

end Equivalent

/-- If comparison finds no difference, every jump on the left stands opposite a
jump, below the same loops up to their labels.  Both jumps return to one of
these loops; it is the same one exactly if the labels correspond from there
inwards, and always if there is only one loop. -/
theorem identical_jumps_share_loops {left right : Protocol} {outcome : Outcome}
    (compared : compare config left right = .ok outcome)
    (identical : outcome.identical = true) {path : Path} {label : String}
    (located : left.at? path = some (jump label)) :
    ∃ label', right.at? path = some (jump label') ∧
      (∀ front known,
        left.EnclosedBy path front known ∨ right.EnclosedBy path front known →
          ∃ head head', left.EnclosedBy path front head ∧
            right.EnclosedBy path front head' ∧ head.SameKind head') ∧
      ∃ front front', left.ReturnsTo path label front ∧
        right.ReturnsTo path label' front' ∧
        (LabelsCorrespond left right path front label label' ↔
          front = front') ∧
        (left.InSingleLoop path → front = front') := by
  obtain ⟨leftResolved, rightResolved, rfl⟩ := compare_eq_ok_iff.mp compared
  have equivalent : Equivalent config left right :=
    equivalent_of_diff_eq_nil (Outcome.identical_ofMarks_iff.mp identical)
  obtain ⟨label', located'⟩ := equivalent.jump located
  obtain ⟨front, returns⟩ := exists_returnsTo
    (unresolvedLabel?_eq_none_iff.mp leftResolved path label located)
  obtain ⟨front', returns'⟩ := exists_returnsTo
    (unresolvedLabel?_eq_none_iff.mp rightResolved path label' located')
  refine ⟨label', located', fun _ _ => equivalent.enclosedBy located, front,
    front', returns, returns',
    equivalent.labelsCorrespond_iff located returns returns', ?_⟩
  intro single
  obtain ⟨head, enclosed, _⟩ := returns.carried
  obtain ⟨head', enclosed', _⟩ := returns'.carried
  obtain ⟨opposite, _, onLeft, _, _⟩ :=
    equivalent.enclosedBy located (.inr enclosed')
  exact single front front' head opposite enclosed onLeft

/-- The inner loop is another one on the right only by name, and so is the outer
loop, to which both jumps return.  If the outer loop has the label of the inner
one on the left only, the jumps still return to the inner loops. -/
theorem identical_jumps_share_loops_renamed :
    let body (inner target : String) : List Protocol :=
      [loop (.recursion inner) [perform ⟨.recv, {}⟩, jump target]]
    let left := loop (.recursion "X") (body "Y" "X")
    let right := loop (.recursion "Y") (body "X" "Y")
    let shadowing := loop (.recursion "X") (body "X" "X")
    let distinct := loop (.recursion "A") (body "B" "B")
    ((∃ outcome, compare {} left right = .ok outcome ∧
        outcome.identical = true) ∧
      left.at? [0, 1] = some (jump "X") ∧
      LabelsCorrespond left right [0, 1] [] "X" "Y" ∧
      ∃ front, left.ReturnsTo [0, 1] "X" front ∧
        right.ReturnsTo [0, 1] "Y" front) ∧
    (∃ outcome, compare {} shadowing distinct = .ok outcome ∧
        outcome.identical = true) ∧
      shadowing.at? [0, 1] = some (jump "X") ∧
      ¬LabelsCorrespond shadowing distinct [0, 1] [] "X" "B" ∧
      LabelsCorrespond shadowing distinct [0, 1] [0] "X" "B" ∧
      shadowing.ReturnsTo [0, 1] "X" [0] ∧
      distinct.ReturnsTo [0, 1] "B" [0] := by
  intro body left right shadowing distinct
  have compared : compare {} left right =
      .ok (.ofMarks (diff {} left right)) := rfl
  have identical : (Outcome.ofMarks (diff {} left right)).identical = true := by
    decide
  have located : left.at? [0, 1] = some (jump "X") := rfl
  have correspond : LabelsCorrespond left right [0, 1] [] "X" "Y" := by decide
  have compared' : compare {} shadowing distinct =
      .ok (.ofMarks (diff {} shadowing distinct)) := rfl
  have identical' :
      (Outcome.ofMarks (diff {} shadowing distinct)).identical = true := by
    decide
  have located' : shadowing.at? [0, 1] = some (jump "X") := rfl
  have correspond' : LabelsCorrespond shadowing distinct [0, 1] [0] "X" "B" := by
    decide
  have atInner : shadowing.at? [0] = some (loop (.recursion "X") _) := rfl
  have toInner : shadowing.ReturnsTo [0, 1] "X" [0] := returnsTo_parent atInner
  constructor
  · obtain ⟨_, opposite, _, front, front', returns, returns', same, _⟩ :=
      identical_jumps_share_loops compared identical located
    cases opposite
    cases same.mp fun other head head' _ =>
      correspond other head head' List.nil_prefix
    exact ⟨⟨_, compared, identical⟩, located, correspond, front, returns,
      returns'⟩
  · obtain ⟨_, opposite, _, front, front', returns, returns', same, _⟩ :=
      identical_jumps_share_loops compared' identical' located'
    cases opposite
    cases returns.unique toInner
    cases same.mp correspond'
    exact ⟨⟨_, compared', identical'⟩, located', by decide, correspond', returns,
      returns'⟩

/-- Comparison takes a jump to the outer loop for a jump to the inner one. -/
theorem identical_jumps_may_return_elsewhere :
    let around (target : String) : Protocol :=
      loop (.recursion "X") [loop (.recursion "Y") [jump target]]
    (∃ outcome, compare {} (around "X") (around "Y") = .ok outcome ∧
      outcome.identical = true) ∧
    (around "X").at? [0, 0] = some (jump "X") ∧
    (around "Y").at? [0, 0] = some (jump "Y") ∧
    (around "X").ReturnsTo [0, 0] "X" [] ∧
    (around "Y").ReturnsTo [0, 0] "Y" [0] ∧
    ¬∃ front, (around "X").ReturnsTo [0, 0] "X" front ∧
      (around "Y").ReturnsTo [0, 0] "Y" front := by
  intro around
  have toOuter : (around "X").ReturnsTo [0, 0] "X" [] := by
    refine ⟨⟨.recursion "X", ⟨List.nil_prefix, by decide, _, rfl⟩, rfl⟩, ?_⟩
    intro other head enclosed named
    rcases enclosed.front_cases with rfl | rfl
    · exact List.prefix_refl []
    · obtain ⟨_, _, _, found⟩ := enclosed
      cases found
      exact absurd named (by decide)
  have atInner : (around "Y").at? [0] = some (loop (.recursion "Y") _) := rfl
  have toInner : (around "Y").ReturnsTo [0, 0] "Y" [0] := returnsTo_parent atInner
  refine ⟨⟨.ofMarks (diff {} (around "X") (around "Y")), rfl, by decide⟩, rfl,
    rfl, toOuter, toInner, ?_⟩
  intro common
  obtain ⟨front, returns, returns'⟩ := common
  have outermost : front = [] := returns.unique toOuter
  have innermost : front = [0] := returns'.unique toInner
  rw [outermost] at innermost
  cases innermost

end Protocol

end Multiparty
