/-
**The reader takes strings and numbers whole.**

A string ends with its mark, so what follows it does not matter. A number ends where no further
character can belong to it, so it is taken whole when nothing of the kind follows.

* `Json.Follows`: what may follow a value.
* **`Json.stringBody?_append`**: the units of a string are read from each of its texts.
* **`Json.number?_append`**: the token of a number is read.
-/

import SqlDraft.Proofs.Json.Grammar
import SqlDraft.Proofs.Template.Grammar

namespace SqlDraft.Json

/-! ### Strings -/

theorem hexValue?_of_isHex {digit : Char} {value : Nat} (hex : IsHex digit value) :
    hexValue? digit = some value := by
  obtain ⟨small, lower | upper⟩ := hex
  · subst lower
    decide +revert
  · subst upper
    decide +revert

theorem hexCode?_of_isHex {first second third fourth : Char} {a b c d : Nat}
    (isFirst : IsHex first a) (isSecond : IsHex second b) (isThird : IsHex third c)
    (isFourth : IsHex fourth d) :
    hexCode? first second third fourth = some (((a * 16 + b) * 16 + c) * 16 + d) := by
  simp only [hexCode?, hexValue?_of_isHex isFirst, hexValue?_of_isHex isSecond,
    hexValue?_of_isHex isThird, hexValue?_of_isHex isFourth]
  rfl

theorem unescape?_of_mem {letter char : Char} (listed : (letter, char) ∈ shortEscapes) :
    unescape? letter = some char ∧ letter ≠ 'u' := by
  have all : ∀ escape ∈ shortEscapes,
      unescape? escape.1 = some escape.2 ∧ escape.1 ≠ 'u' :=
    List.forall_iff_forall_mem.mp (by decide)
  exact all _ listed

theorem stringBody?_plain {char : Char} (visible : 32 ≤ char.toNat) (noMark : char ≠ '"')
    (noEscape : char ≠ '\\') (text : List Char) :
    stringBody? (char :: text) =
      (stringBody? text).map fun body => (.char char :: body.1, body.2) := by
  rw [stringBody?, if_neg (not_or.mpr ⟨Nat.not_lt.mpr visible, noEscape⟩)]
  · exact fun same => noMark same
  · exact fun _ _ _ _ _ same => absurd same noEscape
  · exact fun _ _ same => absurd same noEscape

theorem stringBody?_short {letter char : Char} (noCode : letter ≠ 'u')
    (known : unescape? letter = some char) {text after : List Char} {units : List JsonUnit}
    (body : stringBody? text = some (units, after)) :
    stringBody? ('\\' :: letter :: text) = some (.char char :: units, after) := by
  rw [stringBody?, known, body]
  exact fun _ _ _ _ _ same => absurd same noCode

/-- **The units of a string are read** from each of its texts, whatever follows the mark. -/
theorem stringBody?_append {units : List JsonUnit} {text : List Char}
    (spelled : SpellsUnits units text) (rest : List Char) :
    stringBody? (text ++ '"' :: rest) = some (units, rest) := by
  induction spelled with
  | nil => rfl
  | plain visible noMark noEscape rest step =>
    rw [List.cons_append, stringBody?_plain visible noMark noEscape, step, Option.map_some]
  | short listed rest step =>
    obtain ⟨known, noCode⟩ := unescape?_of_mem listed
    exact stringBody?_short noCode known step
  | code isFirst isSecond isThird isFourth rest step =>
    have code := hexCode?_of_isHex isFirst isSecond isThird isFourth
    simp only [List.cons_append, stringBody?, code, step]

/-! ### What follows a number -/

/-- What follows does not go on with a digit. -/
def Ends (rest : List Char) : Prop := rest.takeWhile Char.isDigit = []

theorem ends_cons {first : Char} (other : first.isDigit = false) (rest : List Char) :
    Ends (first :: rest) :=
  List.takeWhile_cons_of_neg (Bool.eq_false_iff.mp other)

/-- What follows does not go on with a part of a number. -/
def Follows (rest : List Char) : Prop :=
  ∀ first ∈ rest.head?, first.isDigit = false ∧ first ∉ ['.', 'e', 'E']

theorem follows_nil : Follows [] := nofun

theorem follows_cons (first : Char) (other : first.isDigit = false ∧ first ∉ ['.', 'e', 'E'])
    (rest : List Char) : Follows (first :: rest) := by
  intro char member
  obtain rfl := Option.mem_some.mp member
  exact other

theorem Follows.ends {rest : List Char} (follows : Follows rest) : Ends rest := by
  cases rest with
  | nil => rfl
  | cons first rest => exact ends_cons (follows first rfl).1 rest

/-- Blanks in front do not make it a part of a number. -/
theorem Blanks.follows {blanks rest : List Char} (blank : Blanks blanks) (follows : Follows rest) :
    Follows (blanks ++ rest) := by
  cases blanks with
  | nil => exact follows
  | cons first blanks =>
    have known : ∀ char ∈ [' ', '\t', '\n', '\r'],
        char.isDigit = false ∧ char ∉ ['.', 'e', 'E'] := List.forall_iff_forall_mem.mp (by decide)
    exact follows_cons first (known first (blank first List.mem_cons_self)) _

/-! ### Numbers -/

theorem digits?_append {digits rest : List Char} (all : Digits digits) (ends : Ends rest) :
    digits? (digits ++ rest) = some (digits, rest) := by
  obtain ⟨filled, all⟩ := all
  obtain ⟨taken, left⟩ := Template.takeWhile_part all ends
  unfold digits?
  rw [taken, left]
  split
  · exact absurd rfl filled
  · rfl

theorem whole?_append {whole rest : List Char} (spelled : SpellsWhole whole) (ends : Ends rest) :
    whole? (whole ++ rest) = some (whole, rest) := by
  cases spelled with
  | zero => rfl
  | digits all other =>
    rw [List.cons_append, whole?, ← List.cons_append, digits?_append all ends]
    exact fun _ same => other (List.cons.inj same).1

/-- A fraction or an exponent does not go on with a digit where it starts. -/
theorem SpellsFraction.ends {fraction rest : List Char} (spelled : SpellsFraction fraction)
    (ends : Ends rest) : Ends (fraction ++ rest) := by
  cases spelled with
  | none => exact ends
  | point => exact ends_cons (by decide) _

theorem SpellsExponent.ends {exponent rest : List Char} (spelled : SpellsExponent exponent)
    (ends : Ends rest) : Ends (exponent ++ rest) := by
  cases spelled with
  | none => exact ends
  | power isLetter => exact ends_cons (by rcases isLetter with rfl | rfl <;> decide) _

/-- An exponent does not start with a point, and neither does what follows a number. -/
theorem SpellsExponent.no_point {exponent rest : List Char} (spelled : SpellsExponent exponent)
    (follows : Follows rest) : ∀ tail, exponent ++ rest ≠ '.' :: tail := by
  intro tail same
  cases spelled with
  | none =>
    have known : rest.head? = some '.' := by rw [← List.nil_append rest, same, List.head?_cons]
    exact (follows '.' known).2 (by decide)
  | power isLetter =>
    obtain ⟨rfl, -⟩ := List.cons.inj same
    exact absurd isLetter (by decide)

theorem fraction?_append {fraction rest : List Char} (spelled : SpellsFraction fraction)
    (ends : Ends rest) (noPoint : ∀ tail, rest ≠ '.' :: tail) :
    fraction? (fraction ++ rest) = some (fraction, rest) := by
  cases spelled with
  | none =>
    rw [List.nil_append, fraction?]
    exact noPoint
  | point all => rw [List.cons_append, fraction?, digits?_append all ends, Option.map_some]

theorem exponentSign_append {sign digits : List Char} (isSign : sign ∈ [[], ['+'], ['-']])
    (all : Digits digits) (rest : List Char) :
    exponentSign (sign ++ (digits ++ rest)) = (sign, digits ++ rest) := by
  simp only [List.mem_cons, List.not_mem_nil, or_false] at isSign
  obtain rfl | rfl | rfl := isSign
  · obtain ⟨filled, all⟩ := all
    obtain ⟨first, digits, rfl⟩ := List.exists_cons_of_ne_nil filled
    have digit := all first List.mem_cons_self
    rw [List.nil_append, List.cons_append, exponentSign]
    all_goals
      rintro _ same
      obtain ⟨rfl, -⟩ := List.cons.inj same
      exact absurd digit (by decide)
  · rfl
  · rfl

theorem exponent?_append {exponent rest : List Char} (spelled : SpellsExponent exponent)
    (follows : Follows rest) : exponent? (exponent ++ rest) = some (exponent, rest) := by
  cases spelled with
  | power isLetter isSign all =>
    rw [List.cons_append, exponent?, if_pos isLetter, List.append_assoc,
      exponentSign_append isSign all]
    simp only [digits?_append all follows.ends, Option.map_some, List.cons_append]
  | none =>
    cases rest with
    | nil => rfl
    | cons first rest =>
      have noLetter : ¬(first = 'e' ∨ first = 'E') := by
        rintro (rfl | rfl) <;> exact (follows _ rfl).2 (by decide)
      rw [List.nil_append, exponent?, if_neg noLetter]

theorem unsigned?_append {token rest : List Char} (spelled : SpellsUnsigned token)
    (follows : Follows rest) : unsigned? (token ++ rest) = some (token, rest) := by
  cases spelled with
  | @parts whole fraction exponent isWhole isFraction isExponent =>
    have ends := isExponent.ends follows.ends
    rw [List.append_assoc, List.append_assoc, unsigned?,
      whole?_append isWhole (isFraction.ends ends)]
    simp only [Option.bind_eq_bind, Option.bind_some,
      fraction?_append isFraction ends (isExponent.no_point follows),
      exponent?_append isExponent follows, List.append_assoc]
    rfl

/-- A number without a sign starts with a digit. -/
theorem SpellsUnsigned.exists_start {token : List Char} (spelled : SpellsUnsigned token) :
    ∃ first rest, token = first :: rest ∧ first.isDigit := by
  cases spelled with
  | parts isWhole =>
    cases isWhole with
    | zero => exact ⟨'0', _, rfl, by decide⟩
    | @digits first rest all => exact ⟨first, _, rfl, all.2 first List.mem_cons_self⟩

/-- A number starts with a digit or with a minus. -/
theorem SpellsNumber.exists_start {token : List Char} (spelled : SpellsNumber token) :
    ∃ first rest, token = first :: rest ∧ (first.isDigit ∨ first = '-') := by
  cases spelled with
  | negative => exact ⟨'-', _, rfl, .inr rfl⟩
  | positive isUnsigned =>
    obtain ⟨first, rest, same, digit⟩ := isUnsigned.exists_start
    exact ⟨first, rest, same, .inl digit⟩

/-- **The token of a number is read**, if what follows does not go on with it. -/
theorem number?_append {token rest : List Char} (spelled : SpellsNumber token)
    (follows : Follows rest) : number? (token ++ rest) = some (token, rest) := by
  cases spelled with
  | negative isUnsigned =>
    rw [List.cons_append, number?, unsigned?_append isUnsigned follows, Option.map_some]
  | positive isUnsigned =>
    rw [number?, unsigned?_append isUnsigned follows]
    obtain ⟨first, tail, rfl, digit⟩ := isUnsigned.exists_start
    rintro _ same
    obtain ⟨rfl, -⟩ := List.cons.inj same
    exact absurd digit (by decide)

end SqlDraft.Json
