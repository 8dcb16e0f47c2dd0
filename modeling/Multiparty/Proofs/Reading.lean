import Mathlib.Data.List.Basic
import Multiparty.Expr.Render

/-!
# Reading expressions back

A text is read from the left: an operand is a word or a text in parentheses, and
what has been read so far becomes the left operand of the next sign, as long as
that sign binds tightly enough.  There is at most one way to read a text, and
the text of an expression whose variables are identifiers can be read as that
expression.  So no two such expressions have the same text, although parentheses
are left out by five levels and a minus may be a sign or an operator.
-/

namespace Multiparty

/-- What may stand in a word: ASCII letters, digits and underscores. -/
def isWordCharacter (character : Char) : Bool :=
  character.isAlphanum || character == '_'

/-- A name that is written as a word and does not start with a digit. -/
def isIdentifier (name : String) : Bool :=
  match name.toList with
  | [] => false
  | first :: rest => !first.isDigit && (first :: rest).all isWordCharacter

/-- No word goes on at the start of the text. -/
def EndsWord (text : List Char) : Prop :=
  ∀ first rest, text = first :: rest → isWordCharacter first = false

/-- What stands between two operands. -/
inductive Connective where
  | operator (op : Operator)
  | range
  | seq

namespace Connective

/-- How tightly a connective binds. -/
def level : Connective → Nat
  | operator op => op.level
  | range => 1
  | seq => 0

/-- The text of a connective. -/
def sign : Connective → List Char
  | operator op => op.symbol.toList
  | range => ['.', '.']
  | seq => [',']

/-- The expression that a connective makes of its operands. -/
def join : Connective → Expr → Expr → Expr
  | operator op => .binary op
  | range => .range
  | seq => .seq

/-- The connective that a text starting with the given character must have. -/
def ofFirst? : Char → Option Connective
  | '+' => some (operator .add)
  | '-' => some (operator .sub)
  | '*' => some (operator .mul)
  | '/' => some (operator .div)
  | '%' => some (operator .mod)
  | '<' => some (operator .shl)
  | '>' => some (operator .shr)
  | '.' => some range
  | ',' => some seq
  | _ => none

theorem exists_sign_eq_cons (connective : Connective) :
    ∃ first rest, connective.sign = first :: rest ∧
      ofFirst? first = some connective := by
  cases connective with
  | operator op => cases op <;> exact ⟨_, _, rfl, rfl⟩
  | range => exact ⟨_, _, rfl, rfl⟩
  | seq => exact ⟨_, _, rfl, rfl⟩

theorem sign_append_inj {left right : Connective}
    {leftRest rightRest : List Char}
    (same : left.sign ++ leftRest = right.sign ++ rightRest) :
    left = right ∧ leftRest = rightRest := by
  obtain ⟨first, more, leftSign, leftFirst⟩ := left.exists_sign_eq_cons
  obtain ⟨first', more', rightSign, rightFirst⟩ := right.exists_sign_eq_cons
  have sameFirst : first = first' := by
    rw [leftSign, rightSign] at same
    exact (List.cons.inj same).1
  subst sameFirst
  rw [leftFirst] at rightFirst
  cases rightFirst
  exact ⟨rfl, List.append_cancel_left same⟩

theorem isWordCharacter_of_ofFirst? {first : Char} {connective : Connective}
    (starts : ofFirst? first = some connective) :
    isWordCharacter first = false := by
  unfold ofFirst? at starts
  split at starts
  case h_10 => cases starts
  all_goals rfl

theorem endsWord_sign_append (connective : Connective) (text : List Char) :
    EndsWord (connective.sign ++ text) := by
  obtain ⟨first, more, isSign, starts⟩ := connective.exists_sign_eq_cons
  intro head tail same
  rw [isSign] at same
  cases same
  exact isWordCharacter_of_ofFirst? starts

theorem sign_append_ne_nil (connective : Connective) (operand : List Char) :
    connective.sign ++ operand ≠ [] := by
  obtain ⟨first, more, isSign, _⟩ := connective.exists_sign_eq_cons
  rw [isSign]
  exact List.cons_ne_nil _ _

theorem sign_append_ne_close (connective : Connective)
    (operand rest : List Char) : connective.sign ++ operand ≠ ')' :: rest := by
  obtain ⟨first, more, isSign, starts⟩ := connective.exists_sign_eq_cons
  rw [isSign]
  intro same
  cases same
  cases starts

end Connective

section Words

/-- A word, possibly after a minus sign. -/
inductive SignedWord : List Char → Prop where
  | plain {first : Char} {word : List Char} :
      (∀ character ∈ first :: word, isWordCharacter character = true) →
      SignedWord (first :: word)
  | minus {word : List Char} :
      (∀ character ∈ word, isWordCharacter character = true) →
      SignedWord ('-' :: word)

theorem takeWhile_word {word rest : List Char}
    (isWord : ∀ character ∈ word, isWordCharacter character = true)
    (ends : EndsWord rest) :
    (word ++ rest).takeWhile isWordCharacter = word := by
  rw [List.takeWhile_append_of_pos isWord]
  cases rest with
  | nil => exact List.append_nil word
  | cons first rest =>
      rw [List.takeWhile_cons_of_neg, List.append_nil]
      rw [ends first rest rfl]
      exact Bool.false_ne_true

theorem word_append_inj {left right leftRest rightRest : List Char}
    (leftWord : ∀ character ∈ left, isWordCharacter character = true)
    (rightWord : ∀ character ∈ right, isWordCharacter character = true)
    (leftEnds : EndsWord leftRest) (rightEnds : EndsWord rightRest)
    (same : left ++ leftRest = right ++ rightRest) :
    left = right ∧ leftRest = rightRest := by
  have sameWord : left = right := by
    rw [← takeWhile_word leftWord leftEnds, same,
      takeWhile_word rightWord rightEnds]
  subst sameWord
  exact ⟨rfl, List.append_cancel_left same⟩

theorem first_ne_of_word {first character : Char} {word : List Char}
    (isWord : ∀ character ∈ first :: word, isWordCharacter character = true)
    (outside : isWordCharacter character = false) : first ≠ character := by
  intro same
  have inside := isWord first List.mem_cons_self
  rw [same, outside] at inside
  cases inside

theorem SignedWord.append_inj {left right leftRest rightRest : List Char}
    (leftWord : SignedWord left) (rightWord : SignedWord right)
    (leftEnds : EndsWord leftRest) (rightEnds : EndsWord rightRest)
    (same : left ++ leftRest = right ++ rightRest) :
    left = right ∧ leftRest = rightRest := by
  -- A minus is no part of a word, so both texts have one or none has.
  cases leftWord with
  | plain leftWord =>
      cases rightWord with
      | plain rightWord =>
          exact word_append_inj leftWord rightWord leftEnds rightEnds same
      | minus =>
          exact absurd (List.cons.inj same).1 (first_ne_of_word leftWord rfl)
  | minus leftWord =>
      cases rightWord with
      | plain rightWord =>
          exact absurd (List.cons.inj same).1.symm
            (first_ne_of_word rightWord rfl)
      | minus rightWord =>
          obtain ⟨sameWord, sameRest⟩ := word_append_inj leftWord rightWord
            leftEnds rightEnds (List.cons.inj same).2
          exact ⟨congrArg (List.cons '-') sameWord, sameRest⟩

theorem SignedWord.append_ne_open {text : List Char} (word : SignedWord text)
    (rest inner : List Char) : text ++ rest ≠ '(' :: inner := by
  intro same
  cases word with
  | plain word =>
      exact absurd (List.cons.inj same).1 (first_ne_of_word word rfl)
  | minus => cases same

theorem isIdentifier_iff {name : String} :
    isIdentifier name = true ↔
      ∃ first rest, name.toList = first :: rest ∧ first.isDigit = false ∧
        ∀ character ∈ first :: rest, isWordCharacter character = true := by
  unfold isIdentifier
  cases name.toList with
  | nil => simp
  | cons first rest => simp

end Words

namespace Expr

/-- Expressions that are written as one word: literals, and variables that are
identifiers. -/
inductive Atom : Expr → Prop where
  | lit (value : Int64) : Atom (.lit value)
  | var {name : String} : isIdentifier name = true → Atom (.var name)

/-- The text of a literal is its absolute value, after a minus sign if it is
negative. -/
theorem toList_render_lit (value : Int64) :
    ∃ number : Nat,
      value.toInt = number ∧
          (lit value).render.toList = Nat.toDigits 10 number ∨
        value.toInt = -number ∧
          (lit value).render.toList = '-' :: Nat.toDigits 10 number := by
  have text : (lit value).render = value.toInt.repr := rfl
  rw [text, Int.repr_eq_if]
  split
  · exact ⟨value.toInt.toNat, .inl ⟨by omega, Nat.toList_repr⟩⟩
  · refine ⟨(-value.toInt).toNat, .inr ⟨by omega, ?_⟩⟩
    rw [String.toList_append, Nat.toList_repr]
    rfl

theorem isDigit_of_mem_number {number : Nat} {character : Char}
    (member : character ∈ Nat.toDigits 10 number) : character.isDigit = true :=
  Nat.isDigit_of_mem_toDigits (by omega) (Nat.le_refl 10) member

theorem Atom.signedWord {expression : Expr} (atom : expression.Atom) :
    SignedWord expression.render.toList := by
  cases atom with
  | lit value =>
      have digits : ∀ number, ∀ character ∈ Nat.toDigits 10 number,
          isWordCharacter character = true := by
        intro number character member
        simp [isWordCharacter, Char.isAlphanum, isDigit_of_mem_number member]
      obtain ⟨number, ⟨_, plain⟩ | ⟨_, minus⟩⟩ := toList_render_lit value
      · have nonempty : Nat.toDigits 10 number ≠ [] := Nat.toDigits_ne_nil
        obtain ⟨first, rest, isNumber⟩ := List.exists_cons_of_ne_nil nonempty
        have isWord := digits number
        rw [isNumber] at isWord
        rw [plain, isNumber]
        exact .plain isWord
      · rw [minus]
        exact .minus (digits number)
  | var identifier =>
      obtain ⟨first, rest, isName, _, word⟩ := isIdentifier_iff.mp identifier
      rw [render, isName]
      exact .plain word

theorem render_lit_ne_identifier {value : Int64} {name : String}
    (identifier : isIdentifier name = true) : (lit value).render ≠ name := by
  intro same
  obtain ⟨first, rest, isName, notDigit, word⟩ := isIdentifier_iff.mp identifier
  obtain ⟨number, ⟨_, plain⟩ | ⟨_, minus⟩⟩ := toList_render_lit value
  · have member : first ∈ Nat.toDigits 10 number := by
      rw [← plain, same, isName]
      exact List.mem_cons_self
    rw [isDigit_of_mem_number member] at notDigit
    cases notDigit
  · rw [same, isName] at minus
    exact absurd (List.cons.inj minus).1 (first_ne_of_word word rfl)

theorem toDigits_ne_minus (number : Nat) (rest : List Char) :
    Nat.toDigits 10 number ≠ '-' :: rest := by
  intro same
  have member : '-' ∈ Nat.toDigits 10 number := same ▸ List.mem_cons_self
  exact absurd (isDigit_of_mem_number member) (by decide)

theorem eq_of_toDigits_eq {number other : Nat}
    (same : Nat.toDigits 10 number = Nat.toDigits 10 other) : number = other := by
  have readBack := congrArg (Nat.ofDigitChars 10 · 0) same
  simpa only [Nat.ofDigitChars_ten_toDigits] using readBack

theorem eq_of_render_lit_eq {value other : Int64}
    (same : (lit value).render = (lit other).render) : value = other := by
  apply Int64.toInt_inj.mp
  have sameText := congrArg String.toList same
  obtain ⟨number, ⟨isValue, text⟩ | ⟨isValue, text⟩⟩ := toList_render_lit value <;>
    obtain ⟨number', ⟨isOther, text'⟩ | ⟨isOther, text'⟩⟩ :=
      toList_render_lit other <;>
    rw [text, text'] at sameText
  · rw [isValue, isOther, eq_of_toDigits_eq sameText]
  · exact absurd sameText (toDigits_ne_minus number _)
  · exact absurd sameText.symm (toDigits_ne_minus number' _)
  · rw [isValue, isOther, eq_of_toDigits_eq (List.cons.inj sameText).2]

theorem Atom.eq_of_render_eq {left right : Expr} (leftAtom : left.Atom)
    (rightAtom : right.Atom) (same : left.render = right.render) :
    left = right := by
  cases leftAtom with
  | lit value =>
      cases rightAtom with
      | lit => exact congrArg Expr.lit (eq_of_render_lit_eq same)
      | var identifier => exact absurd same (render_lit_ne_identifier identifier)
  | var identifier =>
      cases rightAtom with
      | lit value =>
          exact absurd same.symm (render_lit_ne_identifier identifier)
      | var => exact congrArg Expr.var same

/-- `Reads level left text result rest` says that `text`, read up to `rest`, is
`result`.  An operand that has been read is `left`; otherwise the text has to
start with one.  Only connectives of at least the given level are read, apart
from those in parentheses. -/
inductive Reads : Nat → Option Expr → List Char → Expr → List Char → Prop where
  | atom {level : Nat} {text after rest : List Char} {atom result : Expr} :
      atom.Atom → EndsWord after → text = atom.render.toList ++ after →
      Reads level (some atom) after result rest →
      Reads level none text result rest
  | group {level : Nat} {text inner after rest : List Char}
      {group result : Expr} :
      text = '(' :: inner → Reads 0 none inner group (')' :: after) →
      Reads level (some group) after result rest →
      Reads level none text result rest
  | join {level : Nat} {text operand after rest : List Char}
      {connective : Connective} {left right result : Expr} :
      text = connective.sign ++ operand → level ≤ connective.level →
      Reads (connective.level + 1) none operand right after →
      Reads level (some (connective.join left right)) after result rest →
      Reads level (some left) text result rest
  | stop {level : Nat} {text : List Char} {left : Expr} :
      (∀ connective operand, text = Connective.sign connective ++ operand →
        connective.level < level) →
      Reads level (some left) text left text

/-- There is at most one way to read a text. -/
theorem Reads.unique {level : Nat} {left : Option Expr}
    {text rest otherRest : List Char} {result other : Expr}
    (reads : Reads level left text result rest)
    (otherReads : Reads level left text other otherRest) :
    result = other ∧ rest = otherRest := by
  -- The next characters decide on the rule, and the same rule goes on with the
  -- same text.
  induction reads generalizing other otherRest with
  | atom atom ends isText _ ih =>
      cases otherReads with
      | atom otherAtom otherEnds otherText more =>
          obtain ⟨sameText, sameAfter⟩ := atom.signedWord.append_inj
            otherAtom.signedWord ends otherEnds (isText.symm.trans otherText)
          have sameAtom := atom.eq_of_render_eq otherAtom
            (String.toList_inj.mp sameText)
          subst sameAtom sameAfter
          exact ih more
      | group otherText =>
          exact absurd (isText.symm.trans otherText)
            (atom.signedWord.append_ne_open _ _)
  | group isText _ _ innerIH ih =>
      cases otherReads with
      | atom otherAtom _ otherText =>
          exact absurd (otherText.symm.trans isText)
            (otherAtom.signedWord.append_ne_open _ _)
      | group otherText inner more =>
          rw [isText] at otherText
          cases otherText
          obtain ⟨sameGroup, sameAfter⟩ := innerIH inner
          cases sameGroup
          cases sameAfter
          exact ih more
  | join isText bound _ _ operandIH ih =>
      cases otherReads with
      | join otherText _ operand more =>
          obtain ⟨sameConnective, sameOperand⟩ :=
            Connective.sign_append_inj (isText.symm.trans otherText)
          subst sameConnective sameOperand
          obtain ⟨sameRight, sameAfter⟩ := operandIH operand
          subst sameRight sameAfter
          exact ih more
      | stop loose => exact absurd (loose _ _ isText) (Nat.not_lt.mpr bound)
  | stop loose =>
      cases otherReads with
      | join otherText bound =>
          exact absurd (loose _ _ otherText) (Nat.not_lt.mpr bound)
      | stop => exact ⟨rfl, rfl⟩

/-- What may follow the text of an expression of the given level, so that no
part of it is taken for a part of the expression. -/
structure Follows (level : Nat) (rest : List Char) : Prop where
  ends : EndsWord rest
  loose : ∀ connective operand, rest = Connective.sign connective ++ operand →
    connective.level ≤ level

theorem follows_sign {level : Nat} {connective : Connective}
    (loose : connective.level ≤ level) (operand : List Char) :
    Follows level (connective.sign ++ operand) := by
  constructor
  · exact connective.endsWord_sign_append operand
  · intro other otherOperand same
    rw [← (Connective.sign_append_inj same).1]
    exact loose

theorem Follows.stop {level bound : Nat} {rest : List Char}
    (follows : Follows level rest) (looser : level < bound) (left : Expr) :
    Reads bound (some left) rest left rest := by
  apply Reads.stop
  intro connective operand isSign
  exact Nat.lt_of_le_of_lt (follows.loose connective operand isSign) looser

/-- What may follow a text that is read to its end. -/
structure Closes (rest : List Char) : Prop where
  ends : EndsWord rest
  unsigned : ∀ connective operand,
    rest ≠ Connective.sign connective ++ operand

theorem closes_nil : Closes [] := by
  constructor
  · intro first rest same
    cases same
  · intro connective operand
    exact (connective.sign_append_ne_nil operand).symm

theorem closes_parenthesis (rest : List Char) : Closes (')' :: rest) := by
  constructor
  · intro first more same
    cases same
    rfl
  · intro connective operand
    exact (connective.sign_append_ne_close operand rest).symm

theorem Closes.follows {rest : List Char} (closes : Closes rest)
    (level : Nat) : Follows level rest := by
  refine ⟨closes.ends, ?_⟩
  intro connective operand same
  exact absurd same (closes.unsigned connective operand)

theorem Closes.stop {rest : List Char} (closes : Closes rest) (level : Nat)
    (left : Expr) : Reads level (some left) rest left rest := by
  apply Reads.stop
  intro connective operand same
  exact absurd same (closes.unsigned connective operand)

/-- The text of the expression is read as the expression, wherever an operand of
at most its level is looked for. -/
def Readable (expression : Expr) : Prop :=
  ∀ level after result rest, level ≤ expression.level →
    Follows expression.level after →
    Reads level (some expression) after result rest →
    Reads level none (expression.render.toList ++ after) result rest

theorem Atom.readable {expression : Expr} (atom : expression.Atom) :
    expression.Readable := by
  intro level after result rest _ follows more
  exact .atom atom follows.ends rfl more

/-- An operand may have parentheses, and must have them if it binds more loosely
than what is looked for or than what comes after it. -/
theorem Readable.operand {expression : Expr} (readable : expression.Readable)
    {needed : Bool} {level : Nat} {after rest : List Char} {result : Expr}
    (tight : needed = false →
      level ≤ expression.level ∧ Follows expression.level after)
    (more : Reads level (some expression) after result rest) :
    Reads level none
      ((parenthesize needed expression.render).toList ++ after) result rest := by
  cases needed with
  | false =>
      obtain ⟨enough, follows⟩ := tight rfl
      exact readable level after result rest enough follows more
  | true =>
      have closes : Closes (')' :: after) := closes_parenthesis after
      have inside := readable 0 (')' :: after) expression (')' :: after)
        (Nat.zero_le _) (closes.follows _) (closes.stop 0 expression)
      refine .group ?_ inside more
      simp [parenthesize]

theorem level_join (connective : Connective) (left right : Expr) :
    (connective.join left right).level = connective.level := by
  cases connective <;> rfl

theorem toList_between (left sign right : String) :
    (left ++ sign ++ right).toList =
      left.toList ++ (sign.toList ++ right.toList) := by
  rw [String.toList_append, String.toList_append, List.append_assoc]

/-- A right operand is parenthesised unless it binds more tightly, a left one at
least if it binds more loosely. -/
theorem exists_render_join (connective : Connective) (left right : Expr) :
    ∃ needed : Bool, (needed = false → connective.level ≤ left.level) ∧
      (connective.join left right).render.toList =
        (parenthesize needed left.render).toList ++ (connective.sign ++
          (parenthesize (right.level ≤ connective.level)
            right.render).toList) := by
  cases connective with
  | operator op =>
      refine ⟨left.level < op.level, ?_, ?_⟩
      · intro bare
        exact Nat.not_lt.mp (of_decide_eq_false bare)
      · exact toList_between _ _ _
  | range =>
      refine ⟨left.level ≤ 1, ?_, ?_⟩
      · intro bare
        exact Nat.le_of_lt (Nat.not_le.mp (of_decide_eq_false bare))
      · exact toList_between _ _ _
  | seq =>
      refine ⟨false, ?_, ?_⟩
      · intro _
        exact Nat.zero_le _
      · exact toList_between _ _ _

theorem Readable.join (connective : Connective) {left right : Expr}
    (leftReadable : left.Readable) (rightReadable : right.Readable) :
    (connective.join left right).Readable := by
  intro level after result rest enough follows more
  rw [level_join] at enough follows
  obtain ⟨needed, tight, text⟩ := exists_render_join connective left right
  rw [text, List.append_assoc, List.append_assoc]
  -- The right operand ends where the whole expression ends.
  have operand : Reads (connective.level + 1) none
      ((parenthesize (right.level ≤ connective.level) right.render).toList ++
        after) right after := by
    apply rightReadable.operand
    · intro bare
      have tighter : connective.level < right.level :=
        Nat.not_le.mp (of_decide_eq_false bare)
      refine ⟨tighter, follows.ends, ?_⟩
      intro other otherOperand isSign
      have loose := follows.loose other otherOperand isSign
      omega
    · exact follows.stop (Nat.lt_succ_self _) right
  apply leftReadable.operand
  · intro bare
    exact ⟨Nat.le_trans enough (tight bare), follows_sign (tight bare) _⟩
  · exact .join rfl enough operand more

theorem readable {expression : Expr}
    (named : ∀ name ∈ expression.vars, isIdentifier name = true) :
    expression.Readable := by
  induction expression with
  | lit value => exact (Atom.lit value).readable
  | var name => exact (Atom.var (named name List.mem_cons_self)).readable
  | binary op left right leftIH rightIH =>
      rw [vars, List.forall_mem_append] at named
      exact .join (.operator op) (leftIH named.1) (rightIH named.2)
  | seq left right leftIH rightIH =>
      rw [vars, List.forall_mem_append] at named
      exact .join .seq (leftIH named.1) (rightIH named.2)
  | range left right leftIH rightIH =>
      rw [vars, List.forall_mem_append] at named
      exact .join .range (leftIH named.1) (rightIH named.2)

/-- The whole text of an expression is read as the expression. -/
theorem reads_render {expression : Expr}
    (named : ∀ name ∈ expression.vars, isIdentifier name = true) :
    Reads 0 none expression.render.toList expression [] := by
  have whole := readable named 0 [] expression [] (Nat.zero_le _)
    (closes_nil.follows _) (closes_nil.stop 0 expression)
  rw [List.append_nil] at whole
  exact whole

/-- Two expressions whose variables are identifiers have the same text only if
they are the same. -/
theorem renderings_are_unambiguous {left right : Expr}
    (leftNamed : ∀ name ∈ left.vars, isIdentifier name = true)
    (rightNamed : ∀ name ∈ right.vars, isIdentifier name = true) :
    left.render = right.render ↔ left = right := by
  constructor
  · intro same
    have leftReads := reads_render leftNamed
    rw [same] at leftReads
    exact (leftReads.unique (reads_render rightNamed)).1
  · intro same
    rw [same]

/-- A minus that is a sign and a minus that is an operator stand side by side,
and only the parentheses tell the two differences apart. -/
theorem renderings_are_unambiguous_for_differences :
    let minusOne : Expr := .lit (-1)
    let grouped : Expr :=
      .binary .sub (.var "N") (.binary .sub (.var "i_1") minusOne)
    let chained : Expr :=
      .binary .sub (.binary .sub (.var "N") (.var "i_1")) minusOne
    (∀ name ∈ grouped.vars, isIdentifier name = true) ∧
      (∀ name ∈ chained.vars, isIdentifier name = true) ∧
      grouped.render = "N-(i_1--1)" ∧ chained.render = "N-i_1--1" ∧
      (grouped.render = chained.render ↔ grouped = chained) ∧
      grouped ≠ chained := by
  intro minusOne grouped chained
  have groupedNamed : ∀ name ∈ grouped.vars, isIdentifier name = true := by
    decide
  have chainedNamed : ∀ name ∈ chained.vars, isIdentifier name = true := by
    decide
  exact ⟨groupedNamed, chainedNamed, by decide, by decide,
    renderings_are_unambiguous groupedNamed chainedNamed, by decide⟩

end Expr

end Multiparty
