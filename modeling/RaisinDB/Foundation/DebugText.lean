import Mathlib.Data.Nat.Digits.Defs
import RaisinDB.Foundation.Separator

/-!
# Texts that can be read back

The text of a value delimits itself when no continuation of it is a continuation of the text of
another value.  Such texts are injective, they can be put one behind the other, and a closed or a
quoted text delimits itself.
-/

namespace RaisinDB.Foundation

open List

variable {α β : Type}

def SelfDelimiting (text : α → List Char) : Prop :=
  ∀ x y rest rest', text x ++ rest = text y ++ rest' → x = y ∧ rest = rest'

namespace SelfDelimiting

variable {text : α → List Char} {other : β → List Char}

/-- A text that is closed by a character it does not hold. -/
theorem closed {close : Char} (injective : ∀ x y, text x = text y → x = y)
    (free : ∀ x, close ∉ text x) : SelfDelimiting fun x => text x ++ [close] := by
  intro x y rest rest' joined
  rw [append_assoc, append_assoc] at joined
  obtain ⟨same, follow⟩ := split_at_first (free x) (free y) joined
  exact ⟨injective x y same, follow⟩

/-- Items one behind the other, up to a character at which no item begins. -/
theorem items (delimited : SelfDelimiting text) {close : Char}
    (fresh : ∀ x rest rest', text x ++ rest ≠ close :: rest') :
    SelfDelimiting fun xs : List α => xs.flatMap text ++ [close] := by
  intro xs
  induction xs with
  | nil =>
    rintro (_ | ⟨y, ys⟩) rest rest' joined
    · exact ⟨rfl, (cons.inj joined).2⟩
    · simp only [flatMap_cons, append_assoc] at joined
      exact absurd joined.symm (fresh y _ _)
  | cons x xs ih =>
    rintro (_ | ⟨y, ys⟩) rest rest' joined
    · simp only [flatMap_cons, append_assoc] at joined
      exact absurd joined (fresh x _ _)
    · simp only [flatMap_cons, append_assoc] at joined
      obtain ⟨same, later⟩ := delimited _ _ _ _ joined
      obtain ⟨sameRest, follow⟩ := ih ys rest rest' (by simpa only [append_assoc] using later)
      exact ⟨by rw [same, sameRest], follow⟩

end SelfDelimiting

/-! ## Quoted strings -/

/-- The digits of a code point that is not zero, most significant first. -/
def hexText (value : Nat) : List Char := ((Nat.digits 16 value).map Nat.digitChar).reverse

theorem hexText_injective {first second : Nat} (same : hexText first = hexText second) :
    first = second := by
  have digits := reverse_injective same
  have lists : ∀ xs ys : List Nat, (∀ x ∈ xs, x < 16) → (∀ y ∈ ys, y < 16) →
      xs.map Nat.digitChar = ys.map Nat.digitChar → xs = ys := by
    intro xs
    induction xs with
    | nil =>
      intro ys _ _ equal
      rw [map_nil, eq_comm, map_eq_nil_iff] at equal
      exact equal.symm
    | cons x xs ih =>
      rintro (_ | ⟨y, ys⟩) small small' equal
      · cases equal
      · obtain ⟨head, tail⟩ := cons.inj equal
        rw [digitChar_injective (small x mem_cons_self) (small' y mem_cons_self) head,
          ih ys (fun z mem => small z (mem_cons_of_mem _ mem))
            (fun z mem => small' z (mem_cons_of_mem _ mem)) tail]
  exact Nat.digits.injective 16 (lists _ _ (fun _ mem => Nat.digits_lt_base (by norm_num) mem)
    (fun _ mem => Nat.digits_lt_base (by norm_num) mem) digits)

theorem mem_hexText {value : Nat} {digit : Char} (mem : digit ∈ hexText value) :
    digit ∈ "0123456789abcdef".toList := by
  obtain ⟨place, among, rfl⟩ := mem_map.mp (mem_reverse.mp mem)
  have small : place < 16 := Nat.digits_lt_base (by norm_num) among
  have table : ∀ a < 16, Nat.digitChar a ∈ "0123456789abcdef".toList := by decide
  exact table place small

/-- A character as it stands in the debug text of a string.  Which characters are written by their
code is a table of the standard. -/
def escapeDebug (byCode : Char → Bool) (char : Char) : List Char :=
  if char = '\x00' then ['\\', '0']
  else if char = '\t' then ['\\', 't']
  else if char = '\r' then ['\\', 'r']
  else if char = '\n' then ['\\', 'n']
  else if char = '"' then ['\\', '"']
  else if char = '\\' then ['\\', '\\']
  else if byCode char then '\\' :: 'u' :: '\x7b' :: hexText char.toNat ++ ['\x7d']
  else [char]

def quotedDebug (byCode : Char → Bool) (text : String) : List Char :=
  '"' :: (text.toList.flatMap (escapeDebug byCode) ++ ['"'])

/-- What an escaped character is, by the way its text begins. -/
inductive Escaped (char : Char) : List Char → Prop where
  | short {letter : Char} (code : (letter, char) ∈
      [('0', '\x00'), ('t', '\t'), ('r', '\r'), ('n', '\n'), ('"', '"'), ('\\', '\\')]) :
      Escaped char ['\\', letter]
  | byCode : Escaped char ('\\' :: 'u' :: '\x7b' :: (hexText char.toNat ++ ['\x7d']))
  | plain (quote : char ≠ '"') (backslash : char ≠ '\\') (zero : char ≠ '\x00') :
      Escaped char [char]

theorem escaped (byCode : Char → Bool) (char : Char) : Escaped char (escapeDebug byCode char) := by
  unfold escapeDebug
  split_ifs with zero tab back line quote slash
  · exact .short (by simp [zero])
  · exact .short (by simp [tab])
  · exact .short (by simp [back])
  · exact .short (by simp [line])
  · exact .short (by simp [quote])
  · exact .short (by simp [slash])
  · exact .byCode
  · exact .plain quote slash zero

theorem escapeDebug_delimited (byCode : Char → Bool) : SelfDelimiting (escapeDebug byCode) := by
  intro x y rest rest' joined
  generalize first : escapeDebug byCode x = text at joined
  generalize second : escapeDebug byCode y = text' at joined
  have left := escaped byCode x
  have right := escaped byCode y
  rw [first] at left
  rw [second] at right
  cases left with
  | short code =>
    cases right with
    | short code' =>
      obtain ⟨_, same⟩ := cons.inj joined
      obtain ⟨rfl, follow⟩ := cons.inj same
      refine ⟨?_, follow⟩
      simp only [mem_cons, Prod.mk.injEq, not_mem_nil, or_false] at code code'
      rcases code with ⟨rfl, rfl⟩ | ⟨rfl, rfl⟩ | ⟨rfl, rfl⟩ | ⟨rfl, rfl⟩ | ⟨rfl, rfl⟩ |
        ⟨rfl, rfl⟩ <;> simpa [eq_comm] using code'
    | byCode =>
      obtain ⟨rfl, _⟩ := cons.inj (cons.inj joined).2
      simp at code
    | plain _ backslash _ => exact absurd (cons.inj joined).1.symm backslash
  | byCode =>
    cases right with
    | short code' =>
      obtain ⟨same, _⟩ := cons.inj (cons.inj joined).2
      rw [← same] at code'
      simp at code'
    | byCode =>
      have texts : (hexText x.toNat ++ ['\x7d']) ++ rest = (hexText y.toNat ++ ['\x7d']) ++ rest' :=
        (cons.inj (cons.inj (cons.inj joined).2).2).2
      rw [append_assoc, append_assoc] at texts
      obtain ⟨same, follow⟩ := split_at_first
        (fun mem => absurd (mem_hexText mem) (by decide))
        (fun mem => absurd (mem_hexText mem) (by decide)) texts
      exact ⟨Char.toNat_inj.mp (hexText_injective same), follow⟩
    | plain _ backslash _ => exact absurd (cons.inj joined).1.symm backslash
  | plain _ backslash _ =>
    cases right with
    | short | byCode => exact absurd (cons.inj joined).1 backslash
    | plain => exact ⟨(cons.inj joined).1, (cons.inj joined).2⟩

theorem quotedDebug_delimited (byCode : Char → Bool) : SelfDelimiting (quotedDebug byCode) := by
  intro x y rest rest' joined
  have quote : ∀ char rest rest', escapeDebug byCode char ++ rest ≠ '"' :: rest' := by
    intro char rest rest' begins
    have shape := escaped byCode char
    generalize escapeDebug byCode char = text at shape begins
    cases shape with
    | short | byCode => exact absurd (cons.inj begins).1 (by decide)
    | plain quote => exact quote (cons.inj begins).1
  obtain ⟨same, follow⟩ := (escapeDebug_delimited byCode).items quote _ _ _ _ (cons.inj joined).2
  exact ⟨String.toList_inj.mp same, follow⟩

/-- No text is broken by a null character. -/
theorem null_not_mem_quotedDebug (byCode : Char → Bool) (text : String) :
    '\x00' ∉ quotedDebug byCode text := by
  unfold quotedDebug
  rw [mem_cons, mem_append, mem_flatMap, mem_singleton]
  rintro (same | ⟨char, _, mem⟩ | same)
  · exact absurd same (by decide)
  · have shape := escaped byCode char
    generalize escapeDebug byCode char = text at shape mem
    cases shape with
    | short code =>
      simp only [mem_cons, not_mem_nil, or_false] at mem
      rcases mem with same | rfl
      · exact absurd same (by decide)
      · simp at code
    | byCode =>
      simp only [mem_cons, mem_append, not_mem_nil, or_false] at mem
      rcases mem with same | same | same | digit | same
      · exact absurd same (by decide)
      · exact absurd same (by decide)
      · exact absurd same (by decide)
      · exact absurd (mem_hexText digit) (by decide)
      · exact absurd same (by decide)
    | plain _ _ zero => exact zero (mem_singleton.mp mem).symm
  · exact absurd same (by decide)

end RaisinDB.Foundation
