import Mathlib
import RaisinDB.Foundation.Lexemes

/-!
# The lexemes of SQL

Strings whose only escape is a doubled quote, quoted names, comments from `--` to the end of the
line and between `/*` and `*/`, words, numbers and `$n` placeholders.  Two words or numbers need a
separator, so what is written on to a number is read as part of it.
-/

namespace RaisinDB.Sql

open List RaisinDB.Foundation

inductive SqlState where
  | blank
  | word
  | number
  /-- In a number, behind the letter of an exponent: a sign may follow. -/
  | exponent
  | period
  | string
  /-- Behind a closing quote, which a further quote opens again. -/
  | stringEnd
  | quotedName
  | quotedNameEnd
  | minus
  | lineComment
  | slash
  /-- In a comment, and in so many others inside it. -/
  | comment (depth : Nat)
  | commentStar (depth : Nat)
  | commentSlash (depth : Nat)
  | commentEnd
  | dollar
  | placeholder
  | symbol
  deriving DecidableEq

def isWordStart (char : Char) : Bool := char.isAlpha || char == '_' || decide (128 ≤ char.toNat)

def isWordPart (char : Char) : Bool := isWordStart char || char.isDigit

/-- A further character of a number. -/
def continueNumber (char : Char) : Option SqlState :=
  if char = 'e' ∨ char = 'E' then some .exponent
  else if isWordPart char ∨ char = '.' then some .number
  else none

/-- A comment is over with as many `*/` as it has `/*`. -/
def closeComment : Nat → SqlState
  | 0 => .commentEnd
  | depth + 1 => .comment depth

namespace SqlState

def start (char : Char) : SqlState :=
  if char.isWhitespace then blank
  else if isWordStart char then word
  else if char.isDigit then number
  else if char = '.' then period
  else if char = '\'' then string
  else if char = '"' then quotedName
  else if char = '-' then minus
  else if char = '/' then slash
  else if char = '$' then dollar
  else symbol

def step (state : SqlState) (char : Char) : Option SqlState :=
  match state with
  | blank => if char.isWhitespace then some blank else none
  | word => if isWordPart char then some word else none
  | number => continueNumber char
  | exponent => if char = '+' ∨ char = '-' then some number else continueNumber char
  | period => if char.isDigit then some number else none
  | string => some (if char = '\'' then stringEnd else string)
  | stringEnd => if char = '\'' then some string else none
  | quotedName => some (if char = '"' then quotedNameEnd else quotedName)
  | quotedNameEnd => if char = '"' then some quotedName else none
  | minus => if char = '-' then some lineComment else none
  | lineComment => if char = '\n' then none else some lineComment
  | slash => if char = '*' then some (comment 0) else none
  | comment depth =>
      some (if char = '*' then commentStar depth
        else if char = '/' then commentSlash depth else comment depth)
  | commentStar depth =>
      some (if char = '/' then closeComment depth
        else if char = '*' then commentStar depth else comment depth)
  | commentSlash depth =>
      some (if char = '*' then comment (depth + 1)
        else if char = '/' then commentSlash depth else comment depth)
  | commentEnd => none
  | dollar => if char.isDigit then some placeholder else none
  | placeholder => if char.isDigit then some placeholder else none
  | symbol => none

end SqlState

def sqlScanner : Scanner Char SqlState := ⟨SqlState.start, SqlState.step⟩

def sqlLexemes (sql : List Char) : List (List Char) := sqlScanner.lexemes sql

def isPlaceholder (lexeme : List Char) : Bool :=
  sqlScanner.finalState lexeme == some .placeholder

example : sqlLexemes "a>=$1--$2\n'it''s'/*/**/$3*/1e-5".toList =
    ["a", ">", "=", "$1", "--$2", "\n", "'it''s'", "/*/**/$3*/", "1e-5"].map String.toList := by
  decide +kernel

/-! ## The end of a lexeme -/

theorem digit_ne {digit other : Char} (isDigit : digit.isDigit) (notDigit : other.isDigit = false) :
    digit ≠ other := by
  rintro rfl
  exact absurd isDigit (by simp [notDigit])

theorem isWhitespace_of_digit {digit : Char} (isDigit : digit.isDigit) :
    digit.isWhitespace = false := by
  have blank : digit ≠ ' ' := digit_ne isDigit rfl
  have tab : digit ≠ '\t' := digit_ne isDigit rfl
  have ret : digit ≠ '\r' := digit_ne isDigit rfl
  have newline : digit ≠ '\n' := digit_ne isDigit rfl
  simp [Char.isWhitespace, blank, tab, ret, newline]

theorem isWordStart_of_digit {digit : Char} (isDigit : digit.isDigit) :
    isWordStart digit = false := by
  have underscore : digit ≠ '_' := digit_ne isDigit rfl
  have range : 48 ≤ digit.toNat ∧ digit.toNat ≤ 57 := by
    simpa [Char.isDigit, UInt32.le_iff_toNat_le] using isDigit
  refine Bool.eq_false_iff.mpr fun begins => ?_
  simp only [isWordStart, Char.isAlpha, Char.isUpper, Char.isLower, UInt32.le_iff_toNat_le,
    Bool.or_eq_true, Bool.and_eq_true, decide_eq_true_eq, beq_iff_eq] at begins
  rcases begins with ((⟨upper, -⟩ | ⟨lower, -⟩) | same) | beyond
  · have : 65 ≤ digit.toNat := upper
    omega
  · have : 97 ≤ digit.toNat := lower
    omega
  · exact underscore same
  · omega

theorem isWordPart_of_digit {digit : Char} (isDigit : digit.isDigit) : isWordPart digit := by
  simp [isWordPart, isDigit]

theorem continueNumber_digit {digit : Char} (isDigit : digit.isDigit) :
    continueNumber digit = some .number := by
  have notE : ¬ (digit = 'e' ∨ digit = 'E') :=
    not_or.mpr ⟨digit_ne isDigit rfl, digit_ne isDigit rfl⟩
  rw [continueNumber, if_neg notE, if_pos (Or.inl (isWordPart_of_digit isDigit))]

/-- States that a digit or a dollar sign leads to: a digit never begins another lexeme there. -/
def SqlState.TakesDigits : SqlState → Prop
  | .word | .number | .exponent | .string | .quotedName | .lineComment | .comment _ | .dollar
  | .placeholder => True
  | _ => False

theorem SqlState.TakesDigits.step {state : SqlState} (takes : state.TakesDigits) {digit : Char}
    (isDigit : digit.isDigit) : state.step digit ≠ none := by
  cases state with
  | word => simp [SqlState.step, isWordPart_of_digit isDigit]
  | number => simp [SqlState.step, continueNumber_digit isDigit]
  | exponent =>
    simp only [SqlState.step, continueNumber_digit isDigit]
    split <;> exact Option.some_ne_none _
  | lineComment =>
    simp [SqlState.step, digit_ne isDigit (show '\n'.isDigit = false from rfl)]
  | string | quotedName | comment depth => exact Option.some_ne_none _
  | dollar | placeholder => simp [SqlState.step, isDigit]
  | _ => exact absurd takes id

/-- A digit or a dollar sign leads to a state that takes digits. -/
theorem SqlState.takesDigits_start {char : Char} (reads : char.isDigit ∨ char = '$') :
    (SqlState.start char).TakesDigits := by
  rcases reads with isDigit | rfl
  · simp [SqlState.start, isWhitespace_of_digit isDigit, isWordStart_of_digit isDigit, isDigit,
      SqlState.TakesDigits]
  · trivial

theorem SqlState.takesDigits_step {state next : SqlState} {char : Char}
    (reads : char.isDigit ∨ char = '$') (step : state.step char = some next) :
    next.TakesDigits := by
  have plain : char ≠ '\'' ∧ char ≠ '"' ∧ char ≠ '*' ∧ char ≠ '/' ∧ char ≠ '+' ∧ char ≠ '-' ∧
      char.isWhitespace = false := by
    rcases reads with isDigit | rfl
    · exact ⟨digit_ne isDigit rfl, digit_ne isDigit rfl, digit_ne isDigit rfl,
        digit_ne isDigit rfl, digit_ne isDigit rfl, digit_ne isDigit rfl,
        isWhitespace_of_digit isDigit⟩
    · decide
  obtain ⟨quote, doubleQuote, star, slash, plus, minus, blank⟩ := plain
  have number : continueNumber char = some next → next.TakesDigits := by
    intro continued
    rw [continueNumber] at continued
    split_ifs at continued <;> (cases continued; trivial)
  cases state <;> simp only [SqlState.step, quote, doubleQuote, star, slash, plus, minus, blank,
    or_self, if_false, Option.some.injEq, reduceCtorEq, Bool.false_eq_true] at step
  case number | exponent => exact number step
  case word | period | dollar | placeholder | lineComment =>
    split_ifs at step
    cases step
    trivial
  all_goals exact step ▸ trivial

/-- A lexeme whose last character is a digit or a dollar sign takes the digits behind it. -/
theorem takesDigits_of_getLast {lexeme : List Char} {final : SqlState}
    (lexed : sqlScanner.finalState lexeme = some final) {last : Char}
    (mem : last ∈ lexeme.getLast?) (reads : last.isDigit ∨ last = '$') : final.TakesDigits := by
  obtain ⟨front, rfl⟩ := getLast?_eq_some_iff.mp mem
  cases front with
  | nil =>
    obtain rfl : SqlState.start last = final := Option.some.inj lexed
    exact SqlState.takesDigits_start reads
  | cons first front =>
    rw [cons_append, Scanner.finalState, Scanner.run_append] at lexed
    obtain ⟨state, -, step⟩ := Option.bind_eq_some_iff.mp lexed
    rw [Scanner.run_cons] at step
    obtain ⟨next, entered, same⟩ := Option.bind_eq_some_iff.mp step
    obtain rfl : next = final := Option.some.inj same
    exact SqlState.takesDigits_step reads entered

/-! ## Placeholders -/

theorem SqlState.start_dollar : SqlState.start '$' = .dollar := by decide

theorem SqlState.start_ne_placeholder (char : Char) : SqlState.start char ≠ .placeholder := by
  unfold SqlState.start
  repeat' split
  all_goals exact SqlState.noConfusion

theorem SqlState.eq_of_start_dollar {char : Char} (begun : SqlState.start char = .dollar) :
    char = '$' := by
  by_contra other
  revert begun
  unfold SqlState.start
  rw [if_neg other]
  repeat' split
  all_goals exact SqlState.noConfusion

theorem continueNumber_cases {char : Char} {next : SqlState}
    (continued : continueNumber char = some next) : next = .exponent ∨ next = .number := by
  rw [continueNumber] at continued
  split_ifs at continued
  · exact .inl (Option.some.inj continued).symm
  · exact .inr (Option.some.inj continued).symm

/-- Only a digit leads into a placeholder, and only the start of a lexeme to a dollar sign. -/
theorem SqlState.step_dollar {state next : SqlState} {char : Char}
    (step : state.step char = some next) (reached : next = .placeholder ∨ next = .dollar) :
    (state = .placeholder ∨ state = .dollar) ∧ char.isDigit := by
  have number : continueNumber char ≠ some next := by
    intro continued
    rcases continueNumber_cases continued with rfl | rfl <;> simp at reached
  cases state with
  | dollar | placeholder =>
    simp only [SqlState.step, Option.ite_none_right_eq_some] at step
    exact ⟨by simp, step.1⟩
  | number => exact absurd step number
  | exponent =>
    dsimp only [SqlState.step] at step
    split_ifs at step
    · simp [← Option.some.inj step] at reached
    · exact absurd step number
  | commentStar depth =>
    cases depth <;> simp only [SqlState.step, Option.some.injEq, closeComment] at step <;>
      split_ifs at step <;> simp [← step] at reached
  | commentEnd | symbol => cases step
  | _ =>
    dsimp only [SqlState.step] at step
    split_ifs at step <;> (cases step; simp at reached)

/-- A placeholder is a dollar sign and digits. -/
theorem placeholder_of_run {state : SqlState} {text : List Char}
    (run : sqlScanner.run state text = some .placeholder) :
    (state = .placeholder ∨ state = .dollar ∧ text ≠ []) ∧ ∀ digit ∈ text, digit.isDigit := by
  induction text generalizing state with
  | nil =>
    obtain rfl : state = .placeholder := Option.some.inj run
    exact ⟨.inl rfl, fun _ mem => nomatch mem⟩
  | cons char rest ih =>
    rw [Scanner.run_cons] at run
    obtain ⟨next, step, others⟩ := Option.bind_eq_some_iff.mp run
    obtain ⟨reached, digits⟩ := ih others
    obtain ⟨entered, isDigit⟩ := SqlState.step_dollar step (reached.imp_right And.left)
    refine ⟨entered.imp_right fun same => ⟨same, cons_ne_nil char rest⟩, fun digit mem => ?_⟩
    rcases mem_cons.mp mem with rfl | mem
    · exact isDigit
    · exact digits digit mem

theorem run_placeholder {digits : List Char} (allDigits : ∀ digit ∈ digits, digit.isDigit) :
    sqlScanner.run .placeholder digits = some .placeholder := by
  induction digits with
  | nil => rfl
  | cons digit rest ih =>
    have step : sqlScanner.step .placeholder digit = some .placeholder := by
      simp [sqlScanner, SqlState.step, allDigits digit mem_cons_self]
    rw [Scanner.run_cons, step]
    exact ih fun other mem => allDigits other (mem_cons_of_mem digit mem)

theorem isPlaceholder_iff {lexeme : List Char} :
    isPlaceholder lexeme = true ↔
      ∃ digits, lexeme = '$' :: digits ∧ digits ≠ [] ∧ ∀ digit ∈ digits, digit.isDigit := by
  rw [isPlaceholder, beq_iff_eq]
  constructor
  · intro lexed
    cases lexeme with
    | nil => cases lexed
    | cons char digits =>
      obtain ⟨begun | ⟨begun, nonempty⟩, allDigits⟩ := placeholder_of_run lexed
      · exact absurd begun (SqlState.start_ne_placeholder char)
      · have dollar : char = '$' := SqlState.eq_of_start_dollar begun
        exact ⟨digits, by rw [dollar], nonempty, allDigits⟩
  · rintro ⟨digits, rfl, nonempty, allDigits⟩
    cases digits with
    | nil => exact absurd rfl nonempty
    | cons digit rest =>
      have step : sqlScanner.step (sqlScanner.start '$') digit = some .placeholder := by
        change SqlState.step (SqlState.start '$') digit = some .placeholder
        rw [SqlState.start_dollar, SqlState.step, if_pos (allDigits digit mem_cons_self)]
      rw [Scanner.finalState, Scanner.run_cons, step]
      exact run_placeholder fun other mem => allDigits other (mem_cons_of_mem digit mem)

end RaisinDB.Sql
