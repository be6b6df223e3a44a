import Mathlib.Data.List.Chain

/-!
# Lexemes

A scanner reads a text symbol by symbol: in a state, the next symbol continues the lexeme or begins
a new one.  The lexemes of a text are therefore determined by what may follow them, one symbol at a
time, and a list of lexemes is read back from the text they make up exactly when each stands apart
from the next.
-/

namespace RaisinDB.Foundation

open List

structure Scanner (α σ : Type*) where
  start : α → σ
  /-- The state after a further symbol of the lexeme; none where the symbol begins another. -/
  step : σ → α → Option σ

namespace Scanner

variable {α σ : Type*} (scanner : Scanner α σ)

/-- The state after further symbols of one lexeme. -/
def run (state : σ) : List α → Option σ
  | [] => some state
  | symbol :: rest => (scanner.step state symbol).bind fun next => run next rest

/-- The state in which the text of a lexeme leaves the scanner. -/
def finalState : List α → Option σ
  | [] => none
  | symbol :: rest => scanner.run (scanner.start symbol) rest

/-- What is left of the lexeme being read, and the lexemes behind it. -/
def lexemesFrom (state : σ) : List α → List α × List (List α)
  | [] => ([], [])
  | symbol :: rest =>
      match scanner.step state symbol with
      | some next =>
          let others := lexemesFrom next rest
          (symbol :: others.1, others.2)
      | none =>
          let others := lexemesFrom (scanner.start symbol) rest
          ([], (symbol :: others.1) :: others.2)

def lexemes : List α → List (List α)
  | [] => []
  | symbol :: rest =>
      let others := scanner.lexemesFrom (scanner.start symbol) rest
      (symbol :: others.1) :: others.2

def IsLexeme (text : List α) : Prop := (scanner.finalState text).isSome

/-- The first symbol of what follows does not continue the lexeme. -/
def Ends (state : σ) (rest : List α) : Prop :=
  ∀ symbol ∈ rest.head?, scanner.step state symbol = none

/-- The first lexeme is over where the second begins. -/
def Apart (left right : List α) : Prop :=
  ∀ state ∈ scanner.finalState left, scanner.Ends state right

instance (text : List α) : Decidable (scanner.IsLexeme text) :=
  inferInstanceAs (Decidable (_ = true))

instance [DecidableEq σ] (state : σ) (rest : List α) : Decidable (scanner.Ends state rest) :=
  match rest with
  | [] => isTrue fun _ mem => nomatch mem
  | symbol :: _ =>
      decidable_of_iff (scanner.step state symbol = none) (by simp [Ends])

instance [DecidableEq σ] (left right : List α) : Decidable (scanner.Apart left right) :=
  match h : scanner.finalState left with
  | none => isTrue (by simp [Apart, h])
  | some state => decidable_of_iff (scanner.Ends state right) (by simp [Apart, h])

variable {scanner}

/-! ## One lexeme and what follows it -/

@[simp] theorem run_nil (state : σ) : scanner.run state [] = some state := rfl

theorem run_cons (state : σ) (symbol : α) (rest : List α) :
    scanner.run state (symbol :: rest) =
      (scanner.step state symbol).bind fun next => scanner.run next rest := rfl

theorem run_append (state : σ) (front rest : List α) :
    scanner.run state (front ++ rest) =
      (scanner.run state front).bind fun next => scanner.run next rest := by
  induction front generalizing state with
  | nil => rfl
  | cons symbol front ih =>
    rw [cons_append, run_cons, run_cons]
    cases scanner.step state symbol with
    | none => rfl
    | some next => exact ih next

theorem lexemesFrom_some {state next : σ} {symbol : α} (step : scanner.step state symbol = some next)
    (rest : List α) : scanner.lexemesFrom state (symbol :: rest) =
      (symbol :: (scanner.lexemesFrom next rest).1, (scanner.lexemesFrom next rest).2) := by
  simp only [lexemesFrom, step]

theorem lexemesFrom_none {state : σ} {symbol : α} (step : scanner.step state symbol = none)
    (rest : List α) :
    scanner.lexemesFrom state (symbol :: rest) = ([], scanner.lexemes (symbol :: rest)) := by
  simp only [lexemesFrom, step, lexemes]

theorem lexemesFrom_ends {state : σ} {rest : List α} (ends : scanner.Ends state rest) :
    scanner.lexemesFrom state rest = ([], scanner.lexemes rest) := by
  cases rest with
  | nil => rfl
  | cons symbol rest => exact lexemesFrom_none (ends symbol rfl) rest

theorem lexemesFrom_append {state final : σ} {text rest : List α}
    (run : scanner.run state text = some final) (ends : scanner.Ends final rest) :
    scanner.lexemesFrom state (text ++ rest) = (text, scanner.lexemes rest) := by
  induction text generalizing state with
  | nil =>
    obtain rfl : state = final := Option.some.inj run
    exact lexemesFrom_ends ends
  | cons symbol text ih =>
    rw [run_cons] at run
    obtain ⟨next, step, run⟩ := Option.bind_eq_some_iff.mp run
    rw [cons_append, lexemesFrom_some step, ih run]

/-- A lexeme is read off the front of a text that does not continue it. -/
theorem lexemes_append {text rest : List α} (lexeme : scanner.IsLexeme text)
    (apart : scanner.Apart text rest) :
    scanner.lexemes (text ++ rest) = text :: scanner.lexemes rest := by
  cases text with
  | nil => exact absurd lexeme (by simp [IsLexeme, finalState])
  | cons symbol text =>
    obtain ⟨final, run⟩ := Option.isSome_iff_exists.mp lexeme
    have split : scanner.lexemesFrom (scanner.start symbol) (text ++ rest) =
        (text, scanner.lexemes rest) := lexemesFrom_append run (apart final run)
    simp only [cons_append, lexemes, split]

/-! ## The lexemes of a text -/

theorem lexemesFrom_flatten (state : σ) (text : List α) :
    (scanner.lexemesFrom state text).1 ++ (scanner.lexemesFrom state text).2.flatten = text := by
  induction text generalizing state with
  | nil => rfl
  | cons symbol rest ih =>
    cases step : scanner.step state symbol with
    | none =>
      rw [lexemesFrom_none step]
      simpa [lexemes] using ih (scanner.start symbol)
    | some next =>
      rw [lexemesFrom_some step]
      simpa using ih next

/-- The lexemes make up the text. -/
@[simp] theorem lexemes_flatten (text : List α) : (scanner.lexemes text).flatten = text := by
  cases text with
  | nil => rfl
  | cons symbol rest => simpa [lexemes] using lexemesFrom_flatten (scanner.start symbol) rest

theorem ends_flatten {state : σ} {texts : List (List α)}
    (lexemes : ∀ text ∈ texts, scanner.IsLexeme text)
    (first : ∀ text ∈ texts.head?, scanner.Ends state text) :
    scanner.Ends state texts.flatten := by
  cases texts with
  | nil => exact fun _ mem => nomatch mem
  | cons text rest =>
    cases text with
    | nil => exact absurd (lexemes [] mem_cons_self) (by simp [IsLexeme, finalState])
    | cons symbol text => exact fun _ mem => first (symbol :: text) rfl _ mem

/-- Reading on from a state: the lexeme ends where the next one starts, and those behind it are
lexemes that stand apart. -/
theorem lexemesFrom_apart (state : σ) (text : List α) :
    ∃ final, scanner.run state (scanner.lexemesFrom state text).1 = some final ∧
      (∀ next ∈ (scanner.lexemesFrom state text).2.head?, scanner.Ends final next) ∧
      (∀ lexeme ∈ (scanner.lexemesFrom state text).2, scanner.IsLexeme lexeme) ∧
      (scanner.lexemesFrom state text).2.IsChain scanner.Apart := by
  induction text generalizing state with
  | nil => exact ⟨state, rfl, fun _ mem => (nomatch mem), fun _ mem => (nomatch mem), .nil⟩
  | cons symbol rest ih =>
    cases step : scanner.step state symbol with
    | some next =>
      obtain ⟨final, run, ends, lexemes, chain⟩ := ih next
      rw [lexemesFrom_some step]
      exact ⟨final, by rw [run_cons, step]; exact run, ends, lexemes, chain⟩
    | none =>
      obtain ⟨final, run, ends, lexemes, chain⟩ := ih (scanner.start symbol)
      rw [lexemesFrom_none step]
      refine ⟨state, rfl, ?_, ?_, ?_⟩
      · rintro _ ⟨⟩ other ⟨⟩
        exact step
      · intro lexeme mem
        rcases mem_cons.mp mem with rfl | mem
        · exact Option.isSome_iff_exists.mpr ⟨final, run⟩
        · exact lexemes lexeme mem
      · refine isChain_cons.mpr ⟨fun next mem last reached => ?_, chain⟩
        obtain rfl : final = last := Option.some.inj (run.symm.trans reached)
        exact ends next mem

theorem lexemes_apart (text : List α) :
    (∀ lexeme ∈ scanner.lexemes text, scanner.IsLexeme lexeme) ∧
      (scanner.lexemes text).IsChain scanner.Apart := by
  cases text with
  | nil => exact ⟨fun _ mem => (nomatch mem), .nil⟩
  | cons symbol rest =>
    obtain ⟨final, run, ends, lexemes, chain⟩ := lexemesFrom_apart (scanner.start symbol) rest
    refine ⟨fun lexeme mem => ?_, isChain_cons.mpr ⟨fun next mem last reached => ?_, chain⟩⟩
    · rcases mem_cons.mp mem with rfl | mem
      · exact Option.isSome_iff_exists.mpr ⟨final, run⟩
      · exact lexemes lexeme mem
    · obtain rfl : final = last := Option.some.inj (run.symm.trans reached)
      exact ends next mem

/-- A list of lexemes is read back from its text exactly when each stands apart from the next. -/
theorem lexemes_flatten_iff {texts : List (List α)}
    (lexemes : ∀ text ∈ texts, scanner.IsLexeme text) :
    scanner.lexemes texts.flatten = texts ↔ texts.IsChain scanner.Apart := by
  refine ⟨fun same => same ▸ (lexemes_apart texts.flatten).2, fun chain => ?_⟩
  induction texts with
  | nil => rfl
  | cons text rest ih =>
    have others : ∀ other ∈ rest, scanner.IsLexeme other :=
      fun other mem => lexemes other (mem_cons_of_mem text mem)
    have apart := (isChain_cons.mp chain).1
    rw [flatten_cons, lexemes_append (lexemes text mem_cons_self), ih others chain.tail]
    exact fun state reached => ends_flatten others fun next mem => apart next mem state reached

end Scanner

end RaisinDB.Foundation
