import Mathlib.Data.List.Forall2
import RaisinDB.Sql.Parameters

/-!
# Substitution and the lexemes of a text

Substitution keeps the lexemes of a text and puts a literal for each placeholder, as long as it
finds no `$n` inside another lexeme and no literal runs on into its neighbours.
-/

namespace RaisinDB.Sql

open List RaisinDB.Foundation

variable {params : List Parameter} {formatValue : Value → List Char}

/-- The lexemes of a literal: a number may have a sign. -/
def literalLexemes : Value → List (List Char)
  | .number text =>
      match text.toList with
      | '-' :: digits => [['-'], digits]
      | digits => [digits]
  | value => [formatParamValue value]

/-- The literal of the value that a placeholder names; another lexeme is kept. -/
def replaceLexeme (params : List Parameter) (lexeme : List Char) : List (List Char) :=
  if isPlaceholder lexeme then
    match params[digitsValue lexeme.tail - 1]? with
    | some param => literalLexemes param.value
    | none => [lexeme]
  else [lexeme]

def replacedLexemes (params : List Parameter) (lexemes : List (List Char)) : List (List Char) :=
  lexemes.flatMap (replaceLexeme params)

/-- No `$n` is found inside a string, a quoted name or a comment. -/
def PlaceholdersAreLexemes (lexemes : List (List Char)) : Prop :=
  ∀ lexeme ∈ lexemes, isPlaceholder lexeme = true ∨ scannedPlaceholders lexeme = 0

/-- No literal continues what stands before it, nor is continued by what stands behind it. -/
def LiteralsStandApart (params : List Parameter) (lexemes : List (List Char)) : Prop :=
  (replacedLexemes params lexemes).IsChain sqlScanner.Apart

instance (lexemes : List (List Char)) : Decidable (PlaceholdersAreLexemes lexemes) :=
  inferInstanceAs (Decidable (∀ lexeme ∈ lexemes, _))

instance (lexemes : List (List Char)) : Decidable (LiteralsStandApart params lexemes) :=
  inferInstanceAs (Decidable (List.IsChain sqlScanner.Apart (replacedLexemes params lexemes)))

/-! ## Cutting a text -/

/-- No `$n` lies across the cut. -/
def Cut (left right : List Char) : Prop :=
  ∀ digit ∈ right.head?, digit.isDigit → ∀ last ∈ left.getLast?, ¬ (last.isDigit ∨ last = '$')

theorem Cut.tail {char : Char} {rest right : List Char} (cut : Cut (char :: rest) right) :
    Cut rest right := by
  intro digit mem isDigit last mem'
  refine cut digit mem isDigit last ?_
  cases rest with
  | nil => cases mem'
  | cons next rest => simpa using mem'

theorem Cut.dropWhile {left right : List Char} (cut : Cut left right) :
    Cut (left.dropWhile Char.isDigit) right := by
  induction left with
  | nil => exact cut
  | cons char rest ih =>
    rw [dropWhile_cons]
    split
    · exact ih cut.tail
    · exact cut

/-- The digits behind a dollar sign end before the cut. -/
theorem Cut.digits {rest right : List Char} (cut : Cut ('$' :: rest) right) :
    (rest ++ right).takeWhile Char.isDigit = rest.takeWhile Char.isDigit ∧
      (rest ++ right).dropWhile Char.isDigit = rest.dropWhile Char.isDigit ++ right := by
  induction rest with
  | nil =>
    cases right with
    | nil => exact ⟨rfl, rfl⟩
    | cons char right =>
      have notDigit : ¬ char.isDigit := fun isDigit =>
        cut char rfl isDigit '$' rfl (.inr rfl)
      simp [notDigit]
  | cons char rest ih =>
    by_cases isDigit : char.isDigit
    · have further : Cut ('$' :: rest) right := by
        intro digit mem digits last mem' reads
        cases rest with
        | nil => exact cut digit mem digits char rfl (.inl isDigit)
        | cons next rest => exact cut digit mem digits last (by simpa using mem') reads
      simpa [takeWhile_cons, dropWhile_cons, isDigit] using ih further
    · simp [isDigit]

theorem cut_of_ends {left right : List Char} {final : SqlState}
    (lexed : sqlScanner.finalState left = some final) (ends : sqlScanner.Ends final right) :
    Cut left right := fun digit mem isDigit _ mem' reads =>
  (takesDigits_of_getLast lexed mem' reads).step isDigit (ends digit mem)

/-! ## Substitution piece by piece -/

theorem substitute_nil : substituteParamsWith params formatValue [] = .ok [] := by
  rw [substituteParamsWith]

theorem substitute_char {char : Char} {rest : List Char}
    (plain : ¬ (char = '$' ∧ rest.takeWhile Char.isDigit ≠ [])) :
    substituteParamsWith params formatValue (char :: rest) =
      (do
        let others ← substituteParamsWith params formatValue rest
        pure (char :: others)) := by
  rw [substituteParamsWith, if_neg plain]

theorem substitute_placeholder {rest : List Char} (digits : rest.takeWhile Char.isDigit ≠ []) :
    substituteParamsWith params formatValue ('$' :: rest) =
      (do
        let text ← placeholderText params formatValue (rest.takeWhile Char.isDigit)
        let others ← substituteParamsWith params formatValue (rest.dropWhile Char.isDigit)
        pure (text ++ others)) := by
  rw [substituteParamsWith, if_pos ⟨rfl, digits⟩]

theorem substitute_append {left right : List Char} (cut : Cut left right) :
    substituteParamsWith params formatValue (left ++ right) =
      (do
        let front ← substituteParamsWith params formatValue left
        let others ← substituteParamsWith params formatValue right
        pure (front ++ others)) := by
  match left with
  | [] =>
    rw [nil_append, substitute_nil]
    cases substituteParamsWith params formatValue right <;> rfl
  | char :: rest =>
    by_cases found : char = '$' ∧ rest.takeWhile Char.isDigit ≠ []
    · obtain ⟨rfl, digits⟩ := found
      obtain ⟨taken, dropped⟩ := cut.digits
      rw [cons_append, substitute_placeholder (taken.symm ▸ digits), taken, dropped,
        substitute_append cut.tail.dropWhile, substitute_placeholder digits]
      cases placeholderText params formatValue (rest.takeWhile Char.isDigit) with
      | error => rfl
      | ok text =>
        cases substituteParamsWith params formatValue (rest.dropWhile Char.isDigit) with
        | error => rfl
        | ok front =>
          cases substituteParamsWith params formatValue right with
          | error => rfl
          | ok others => exact congrArg Except.ok (append_assoc text front others).symm
    · have plain : ¬ (char = '$' ∧ (rest ++ right).takeWhile Char.isDigit ≠ []) := by
        rintro ⟨rfl, digits⟩
        exact found ⟨rfl, cut.digits.1 ▸ digits⟩
      rw [cons_append, substitute_char plain, substitute_append cut.tail, substitute_char found]
      cases substituteParamsWith params formatValue rest with
      | error => rfl
      | ok front => cases substituteParamsWith params formatValue right <;> rfl
  termination_by left.length
  decreasing_by
    · exact Nat.lt_succ_of_le (length_dropWhile_le Char.isDigit rest)
    · exact Nat.lt_succ_self _

theorem takeWhile_digits_ne_nil {text : List Char} :
    text.takeWhile Char.isDigit ≠ [] ↔ text.head?.any Char.isDigit := by
  cases text with
  | nil => simp
  | cons char rest => by_cases isDigit : char.isDigit <;> simp [isDigit]

theorem scanned_cons {char : Char} {rest : List Char} :
    scannedPlaceholders (char :: rest) =
      (if char = '$' ∧ rest.takeWhile Char.isDigit ≠ [] then 1 else 0) +
        scannedPlaceholders rest := by
  simp only [scannedPlaceholders, takeWhile_digits_ne_nil]

/-- A text without a `$n` is kept. -/
theorem substitute_plain {text : List Char} (none : scannedPlaceholders text = 0) :
    substituteParamsWith params formatValue text = .ok text := by
  induction text with
  | nil => exact substitute_nil
  | cons char rest ih =>
    rw [scanned_cons] at none
    have plain : ¬ (char = '$' ∧ rest.takeWhile Char.isDigit ≠ []) := by
      intro found
      simp [found] at none
    rw [substitute_char plain, ih (Nat.eq_zero_of_add_eq_zero_left none)]
    rfl

/-! ## Literals -/

theorem run_digits {digits : List Char} (allDigits : ∀ digit ∈ digits, digit.isDigit) :
    sqlScanner.run .number digits = some .number := by
  induction digits with
  | nil => rfl
  | cons digit rest ih =>
    have step : sqlScanner.step .number digit = some .number :=
      continueNumber_digit (allDigits digit mem_cons_self)
    rw [Scanner.run_cons, step]
    exact ih fun other mem => allDigits other (mem_cons_of_mem digit mem)

theorem isDigits_iff {digits : List Char} :
    isDigits digits = true ↔ digits ≠ [] ∧ ∀ digit ∈ digits, digit.isDigit := by
  simp [isDigits]

theorem run_exponent {text : List Char} (exponent : isExponent text = true) :
    sqlScanner.run .exponent text = some .number := by
  have plain {digits : List Char} (digits' : isDigits digits = true) :
      sqlScanner.run .exponent digits = some .number := by
    obtain ⟨nonempty, allDigits⟩ := isDigits_iff.mp digits'
    cases digits with
    | nil => exact absurd rfl nonempty
    | cons digit rest =>
      have isDigit := allDigits digit mem_cons_self
      have step : sqlScanner.step .exponent digit = some .number := by
        change SqlState.step .exponent digit = some .number
        rw [SqlState.step, continueNumber_digit isDigit, ite_self]
      rw [Scanner.run_cons, step]
      exact run_digits fun other mem => allDigits other (mem_cons_of_mem digit mem)
  unfold isExponent at exponent
  split at exponent
  · exact run_digits (isDigits_iff.mp exponent).2
  · exact run_digits (isDigits_iff.mp exponent).2
  · exact plain exponent

theorem run_exponentPart {text : List Char} (part : isExponentPart text = true) :
    ∃ final, sqlScanner.run .number text = some final := by
  cases text with
  | nil => exact ⟨_, rfl⟩
  | cons char rest =>
    obtain ⟨letter, exponent⟩ := Bool.and_eq_true_iff.mp part
    have step : sqlScanner.step .number char = some .exponent := by
      change continueNumber char = some .exponent
      rw [continueNumber, if_pos (by simpa using letter)]
    exact ⟨.number, by rw [Scanner.run_cons, step]; exact run_exponent exponent⟩

theorem run_then {state next : SqlState} {front rest : List Char}
    (reached : sqlScanner.run state front = some next)
    (further : ∃ final, sqlScanner.run next rest = some final) :
    ∃ final, sqlScanner.run state (front ++ rest) = some final := by
  obtain ⟨final, run⟩ := further
  exact ⟨final, by rw [Scanner.run_append, reached]; exact run⟩

theorem run_numberTail {text : List Char} (tail : isNumberTail text = true) :
    ∃ final, sqlScanner.run .number text = some final := by
  unfold isNumberTail at tail
  split at tail
  · next rest =>
    have part := (Bool.and_eq_true_iff.mp tail).2
    have digits : sqlScanner.run .number ('.' :: rest.takeWhile Char.isDigit) = some .number := by
      rw [Scanner.run_cons]
      exact run_digits fun digit mem => mem_takeWhile_imp mem
    have whole := run_then digits (run_exponentPart part)
    rwa [cons_append, takeWhile_append_dropWhile] at whole
  · exact run_exponentPart tail

/-- An unsigned number is a lexeme. -/
theorem isLexeme_number {text : List Char} (number : isUnsignedNumber text = true) :
    sqlScanner.IsLexeme text := by
  obtain ⟨nonempty, tail⟩ := Bool.and_eq_true_iff.mp number
  cases text with
  | nil => cases nonempty
  | cons digit rest =>
    by_cases isDigit : digit.isDigit
    · have begun : sqlScanner.start digit = .number := by
        change SqlState.start digit = .number
        simp [SqlState.start, isWhitespace_of_digit isDigit, isWordStart_of_digit isDigit, isDigit]
      rw [dropWhile_cons_of_pos isDigit] at tail
      have digits : sqlScanner.run .number (rest.takeWhile Char.isDigit) = some .number :=
        run_digits fun _ mem => mem_takeWhile_imp mem
      obtain ⟨final, run⟩ := run_then digits (run_numberTail tail)
      rw [takeWhile_append_dropWhile] at run
      exact Option.isSome_iff_exists.mpr ⟨final, by rw [Scanner.finalState, begun]; exact run⟩
    · simp [isDigit] at nonempty

theorem run_quoted (text : List Char) :
    sqlScanner.run .string
      (text.flatMap (fun char => if char = '\'' then ['\'', '\''] else [char]) ++ ['\'']) =
        some .stringEnd := by
  induction text with
  | nil => rfl
  | cons char rest ih =>
    rw [flatMap_cons, append_assoc]
    by_cases quote : char = '\''
    · rw [if_pos quote]
      exact ih
    · rw [if_neg quote, singleton_append, Scanner.run_cons]
      have step : sqlScanner.step .string char = some .string := by
        change some (if char = '\'' then SqlState.stringEnd else .string) = some .string
        rw [if_neg quote]
      rw [step]
      exact ih

theorem isLexeme_quoteText (text : List Char) : sqlScanner.IsLexeme (quoteText text) :=
  Option.isSome_iff_exists.mpr ⟨_, run_quoted text⟩

theorem isJsonNumber_sign (digits : List Char) :
    isJsonNumber ('-' :: digits) = isUnsignedNumber digits := rfl

theorem isJsonNumber_plain {text : List Char} (plain : text.head? ≠ some '-') :
    isJsonNumber text = isUnsignedNumber text := by
  unfold isJsonNumber
  split
  · exact absurd rfl plain
  · rfl

theorem literalLexemes_sign {text : String} {digits : List Char}
    (chars : text.toList = '-' :: digits) :
    literalLexemes (.number text) = [['-'], digits] := by
  rw [literalLexemes, chars]
  rfl

theorem literalLexemes_plain {text : String} (plain : text.toList.head? ≠ some '-') :
    literalLexemes (.number text) = [text.toList] := by
  rw [literalLexemes]
  split
  · next digits chars => exact absurd (by rw [chars]; rfl) plain
  · rfl

theorem isLexeme_literal (param : Parameter) :
    ∀ lexeme ∈ literalLexemes param.value, sqlScanner.IsLexeme lexeme := by
  obtain ⟨value, written⟩ := param
  cases value with
  | null => simp [literalLexemes, formatParamValue]; decide
  | bool flag => cases flag <;> simp [literalLexemes, formatParamValue] <;> decide
  | number text =>
    have number := written text rfl
    by_cases sign : text.toList.head? = some '-'
    · obtain ⟨digits, chars⟩ := head?_eq_some_iff.mp sign
      rw [chars, isJsonNumber_sign] at number
      simp only [literalLexemes_sign chars, mem_cons, not_mem_nil, or_false, forall_eq_or_imp,
        forall_eq]
      exact ⟨by decide, isLexeme_number number⟩
    · rw [isJsonNumber_plain sign] at number
      simpa [literalLexemes_plain sign] using isLexeme_number number
  | string text => simpa [literalLexemes, formatParamValue] using isLexeme_quoteText _
  | array items => simpa [literalLexemes, formatParamValue] using isLexeme_quoteText _
  | object fields => simpa [literalLexemes, formatParamValue] using isLexeme_quoteText _

/-- The lexemes of a literal make up the text of the value. -/
theorem literalLexemes_flatten (value : Value) :
    (literalLexemes value).flatten = formatParamValue value := by
  cases value with
  | number text =>
    by_cases sign : text.toList.head? = some '-'
    · obtain ⟨digits, chars⟩ := head?_eq_some_iff.mp sign
      simp [literalLexemes_sign chars, formatParamValue, chars]
    · simp [literalLexemes_plain sign, formatParamValue]
  | _ => simp [literalLexemes]

/-- The text of a value does not begin with a dollar sign. -/
theorem formatParamValue_head (param : Parameter) :
    ∃ char rest, formatParamValue param.value = char :: rest ∧ char ≠ '$' := by
  obtain ⟨value, written⟩ := param
  cases value with
  | null => exact ⟨'N', _, rfl, by decide⟩
  | bool flag => cases flag <;> exact ⟨_, _, rfl, by decide⟩
  | number text =>
    have number := written text rfl
    simp only [formatParamValue]
    cases chars : text.toList with
    | nil => simp [chars, isJsonNumber, isUnsignedNumber] at number
    | cons char rest =>
      refine ⟨char, rest, rfl, ?_⟩
      rintro rfl
      simp [chars, isJsonNumber, isUnsignedNumber] at number
  | string text => exact ⟨'\'', _, rfl, by decide⟩
  | array items => exact ⟨'\'', _, rfl, by decide⟩
  | object fields => exact ⟨'\'', _, rfl, by decide⟩

/-! ## Substitution in a list of lexemes -/

/-- What each lexeme becomes by itself. -/
theorem substitute_lexemes {lexemes : List (List Char)}
    (lexed : ∀ lexeme ∈ lexemes, sqlScanner.IsLexeme lexeme)
    (apart : lexemes.IsChain sqlScanner.Apart) {out : List Char}
    (substituted : substituteParamsWith params formatValue lexemes.flatten = .ok out) :
    ∃ outs, Forall₂ (fun lexeme text => substituteParamsWith params formatValue lexeme = .ok text)
      lexemes outs ∧ out = outs.flatten := by
  induction lexemes generalizing out with
  | nil =>
    rw [flatten_nil, substitute_nil] at substituted
    exact ⟨[], .nil, (Except.ok.inj substituted).symm⟩
  | cons lexeme rest ih =>
    have others : ∀ other ∈ rest, sqlScanner.IsLexeme other := fun other mem =>
      lexed other (mem_cons_of_mem lexeme mem)
    obtain ⟨final, reached⟩ := Option.isSome_iff_exists.mp (lexed lexeme mem_cons_self)
    have ends : sqlScanner.Ends final rest.flatten := Scanner.ends_flatten others fun next mem =>
      (isChain_cons.mp apart).1 next mem final reached
    rw [flatten_cons, substitute_append (cut_of_ends reached ends)] at substituted
    cases first : substituteParamsWith params formatValue lexeme with
    | error => rw [first] at substituted; cases substituted
    | ok text =>
      cases further : substituteParamsWith params formatValue rest.flatten with
      | error => rw [first, further] at substituted; cases substituted
      | ok tail =>
        rw [first, further] at substituted
        obtain ⟨outs, each, rfl⟩ := ih others apart.tail further
        exact ⟨text :: outs, .cons first each, (Except.ok.inj substituted).symm⟩

theorem placeholderText_ok {digits text : List Char}
    (named : placeholderText params formatValue digits = .ok text) :
    ∃ param, params[digitsValue digits - 1]? = some param ∧ text = formatValue param.value := by
  unfold placeholderText at named
  split_ifs at named
  cases place : params[digitsValue digits - 1]? with
  | none => rw [place] at named; cases named
  | some param =>
    rw [place] at named
    exact ⟨param, rfl, (Except.ok.inj named).symm⟩

theorem substitute_found {rest text : List Char} (digits : rest.takeWhile Char.isDigit ≠ [])
    (substituted : substituteParamsWith params formatValue ('$' :: rest) = .ok text) :
    ∃ param others, params[digitsValue (rest.takeWhile Char.isDigit) - 1]? = some param ∧
      substituteParamsWith params formatValue (rest.dropWhile Char.isDigit) = .ok others ∧
      text = formatValue param.value ++ others := by
  rw [substitute_placeholder digits] at substituted
  cases value : placeholderText params formatValue (rest.takeWhile Char.isDigit) with
  | error => rw [value] at substituted; cases substituted
  | ok front =>
    cases further : substituteParamsWith params formatValue (rest.dropWhile Char.isDigit) with
    | error => rw [value, further] at substituted; cases substituted
    | ok others =>
      rw [value, further] at substituted
      obtain ⟨param, named, rfl⟩ := placeholderText_ok value
      exact ⟨param, others, named, rfl, (Except.ok.inj substituted).symm⟩

/-- A placeholder becomes the text of the value that it names. -/
theorem substitute_isPlaceholder {lexeme text : List Char} (placeholder : isPlaceholder lexeme)
    (substituted : substituteParamsWith params formatParamValue lexeme = .ok text) :
    ∃ param ∈ params, replaceLexeme params lexeme = literalLexemes param.value ∧
      text = formatParamValue param.value := by
  obtain ⟨digits, rfl, nonempty, allDigits⟩ := isPlaceholder_iff.mp placeholder
  have taken : digits.takeWhile Char.isDigit = digits := takeWhile_eq_self_iff.mpr allDigits
  have dropped : digits.dropWhile Char.isDigit = [] := dropWhile_eq_nil_iff.mpr allDigits
  obtain ⟨param, others, named, rest, rfl⟩ :=
    substitute_found (taken.symm ▸ nonempty) substituted
  rw [dropped, substitute_nil] at rest
  rw [taken] at named
  obtain rfl : [] = others := Except.ok.inj rest
  refine ⟨param, mem_of_getElem? named, ?_, append_nil _⟩
  rw [replaceLexeme, if_pos placeholder, tail_cons, named]

/-- Where a `$n` is found in a text, the text changes there. -/
theorem substitute_changes {lexeme text : List Char} (found : scannedPlaceholders lexeme ≠ 0)
    (substituted : substituteParamsWith params formatParamValue lexeme = .ok text) :
    ∃ front char rest rest', lexeme = front ++ '$' :: rest ∧ text = front ++ char :: rest' ∧
      char ≠ '$' := by
  induction lexeme generalizing text with
  | nil => exact absurd rfl found
  | cons char rest ih =>
    by_cases here : char = '$' ∧ rest.takeWhile Char.isDigit ≠ []
    · obtain ⟨rfl, digits⟩ := here
      obtain ⟨param, others, _, _, rfl⟩ := substitute_found digits substituted
      obtain ⟨first, tail, format, other⟩ := formatParamValue_head param
      exact ⟨[], first, rest, tail ++ others, rfl, by rw [format]; rfl, other⟩
    · rw [scanned_cons, if_neg here, zero_add] at found
      rw [substitute_char here] at substituted
      cases further : substituteParamsWith params formatParamValue rest with
      | error => rw [further] at substituted; cases substituted
      | ok others =>
        rw [further] at substituted
        obtain rfl : char :: others = text := Except.ok.inj substituted
        obtain ⟨front, first, tail, tail', same, same', other⟩ := ih found further
        exact ⟨char :: front, first, tail, tail', by rw [same]; rfl, by rw [same']; rfl, other⟩

/-- A lexeme in which nothing but itself is found becomes its replacement. -/
theorem substitute_replaced {lexeme text : List Char}
    (clean : isPlaceholder lexeme = true ∨ scannedPlaceholders lexeme = 0)
    (substituted : substituteParamsWith params formatParamValue lexeme = .ok text) :
    (replaceLexeme params lexeme).flatten = text := by
  by_cases placeholder : isPlaceholder lexeme = true
  · obtain ⟨param, _, replaced, rfl⟩ := substitute_isPlaceholder placeholder substituted
    rw [replaced, literalLexemes_flatten]
  · rw [substitute_plain (clean.resolve_left placeholder)] at substituted
    rw [replaceLexeme, if_neg placeholder]
    simpa using Except.ok.inj substituted

/-- The lexemes make up the text exactly when no `$n` is found inside another lexeme. -/
theorem flatten_replaced_iff {lexemes outs : List (List Char)}
    (each : Forall₂ (fun lexeme text =>
      substituteParamsWith params formatParamValue lexeme = .ok text) lexemes outs) :
    (replacedLexemes params lexemes).flatten = outs.flatten ↔ PlaceholdersAreLexemes lexemes := by
  induction each with
  | nil => exact ⟨fun _ _ mem => (nomatch mem), fun _ => rfl⟩
  | @cons lexeme text lexemes outs first others ih =>
    rw [replacedLexemes, flatMap_cons, flatten_append, flatten_cons]
    by_cases clean : isPlaceholder lexeme = true ∨ scannedPlaceholders lexeme = 0
    · rw [substitute_replaced clean first, append_cancel_left_eq]
      exact ih.trans (by simp [PlaceholdersAreLexemes, clean])
    · refine ⟨fun same => absurd same ?_, fun all => absurd (all lexeme mem_cons_self) clean⟩
      obtain ⟨notPlaceholder, found⟩ := not_or.mp clean
      obtain ⟨front, char, rest, rest', rfl, rfl, other⟩ := substitute_changes found first
      rw [replaceLexeme, if_neg notPlaceholder]
      intro same
      simp only [flatten_cons, flatten_nil, append_nil, append_assoc, cons_append,
        append_cancel_left_eq, cons.injEq] at same
      exact other same.1.symm

theorem isLexeme_replaced {lexemes outs : List (List Char)}
    (lexed : ∀ lexeme ∈ lexemes, sqlScanner.IsLexeme lexeme)
    (each : Forall₂ (fun lexeme text =>
      substituteParamsWith params formatParamValue lexeme = .ok text) lexemes outs) :
    ∀ lexeme ∈ replacedLexemes params lexemes, sqlScanner.IsLexeme lexeme := by
  intro lexeme mem
  obtain ⟨source, here, mem⟩ := mem_flatMap.mp mem
  by_cases placeholder : isPlaceholder source = true
  · obtain ⟨i, bound, rfl⟩ := getElem_of_mem here
    have substituted := each.get bound (each.length_eq ▸ bound)
    obtain ⟨param, _, replaced, _⟩ := substitute_isPlaceholder placeholder substituted
    exact isLexeme_literal param lexeme (replaced ▸ mem)
  · rw [replaceLexeme, if_neg placeholder, mem_singleton] at mem
    exact mem ▸ lexed source here

/-- Substitution keeps the lexemes and puts a literal for each placeholder exactly when each `$n`
that it finds is a placeholder, and no literal runs on into its neighbours. -/
theorem substitution_keeps_lexemes {sql out : List Char}
    (substituted : substituteParams sql params = .ok out) :
    sqlLexemes out = replacedLexemes params (sqlLexemes sql) ↔
      PlaceholdersAreLexemes (sqlLexemes sql) ∧ LiteralsStandApart params (sqlLexemes sql) := by
  obtain ⟨lexed, apart⟩ := sqlScanner.lexemes_apart sql
  have whole : (sqlLexemes sql).flatten = sql := Scanner.lexemes_flatten sql
  obtain ⟨outs, each, rfl⟩ := substitute_lexemes lexed apart
    (show substituteParamsWith params formatParamValue (sqlLexemes sql).flatten = .ok out from
      whole.symm ▸ substituted)
  have literals := isLexeme_replaced lexed each
  constructor
  · intro same
    have flat : (replacedLexemes params (sqlLexemes sql)).flatten = outs.flatten := by
      rw [← same]
      exact Scanner.lexemes_flatten outs.flatten
    refine ⟨(flatten_replaced_iff each).mp flat, (Scanner.lexemes_flatten_iff literals).mp ?_⟩
    rw [show (sqlScanner.lexemes sql) = sqlLexemes sql from rfl, flat]
    exact same
  · rintro ⟨clean, chain⟩
    rw [← (flatten_replaced_iff each).mpr clean]
    exact (Scanner.lexemes_flatten_iff literals).mpr chain

def stringParameter (text : String) : Parameter := ⟨.string text, fun _ same => nomatch same⟩

theorem placeholder_becomes_literal :
    substituteParams "SELECT $1".toList [stringParameter "it's"] = .ok "SELECT 'it''s'".toList ∧
      sqlLexemes "SELECT 'it''s'".toList =
        replacedLexemes [stringParameter "it's"] (sqlLexemes "SELECT $1".toList) := by
  have substituted : substituteParams "SELECT $1".toList [stringParameter "it's"] =
      .ok "SELECT 'it''s'".toList := by
    decide +kernel
  exact ⟨substituted, (substitution_keeps_lexemes substituted).mpr (by decide +kernel)⟩

/-- A value in the place of a `$1` between quotes ends the string, and its text is read as SQL. -/
theorem quoted_placeholder_is_replaced :
    substituteParams "SELECT '$1'".toList [stringParameter " OR 1=1 --"] =
        .ok "SELECT '' OR 1=1 --''".toList ∧
      sqlLexemes "SELECT '' OR 1=1 --''".toList =
        ["SELECT", " ", "''", " ", "OR", " ", "1", "=", "1", " ", "--''"].map String.toList ∧
      replacedLexemes [stringParameter " OR 1=1 --"] (sqlLexemes "SELECT '$1'".toList) =
        ["SELECT", " ", "'$1'"].map String.toList ∧
      sqlLexemes "SELECT '' OR 1=1 --''".toList ≠
        replacedLexemes [stringParameter " OR 1=1 --"] (sqlLexemes "SELECT '$1'".toList) := by
  decide +kernel

/-- A negative number behind a minus sign begins a comment. -/
example : substituteParams "SELECT 5-$1".toList [⟨.number "-1", by rintro _ ⟨⟩; decide⟩] =
    .ok "SELECT 5--1".toList := by
  decide +kernel

end RaisinDB.Sql
