/-
**Templates by byte offsets.**

A template can be expanded where it stands, in UTF-8: the next `%` is searched for, the bytes behind
it are tested one by one, and the text is cut at the offsets that are found. All bytes that end a
part are characters of their own, so no cut falls inside a character, and the text is the same:

* `Template.cut?`: a text that is cut at a number of bytes, where this is between two characters.
* `Template.conversionLength?`: the number of bytes of a conversion.
* `Template.Scan.round?`: one round of the search, and `Template.Scan.run?` all of them.
* **`Template.conversionLength?_eq`**: the bytes of a conversion are its characters.
* **`Template.Scan.run?_eq`**: all cuts can be made, and the search ends with the expanded template.
-/

import SqlDraft.Proofs.Template.Grammar

namespace SqlDraft.Template

/-! ### Texts as bytes -/

/-- The bytes of a text in UTF-8. -/
def bytes (text : List Char) : List UInt8 := text.flatMap String.utf8EncodeChar

/-- Cuts a text at a number of bytes. There is no result where the cut would fall inside a character
or behind the end. -/
def cut? : List Char → Nat → Option (List Char × List Char)
  | text, 0 => some ([], text)
  | [], _ + 1 => none
  | char :: rest, offset + 1 =>
    if char.utf8Size ≤ offset + 1 then
      (cut? rest (offset + 1 - char.utf8Size)).map fun parts => (char :: parts.1, parts.2)
    else none

/-- Whether a byte is a character that belongs to a part. -/
def isByte (isPart : Char → Bool) (byte : UInt8) : Bool :=
  byte < 128 && isPart (Char.ofNat byte.toNat)

/-- The first offset from one on where no byte of a part stands. -/
def passPart (isPart : Char → Bool) (row : List UInt8) (offset : Nat) : Nat :=
  offset + ((row.drop offset).takeWhile (isByte isPart)).length

/-- The number of bytes of the conversion that starts with the first byte. -/
def conversionLength? (row : List UInt8) : Option Nat :=
  let place := passPart isLength row (passPart isMeasure row (passPart isFlag row 1))
  match row[place]? with
  | some byte => if isByte isKind byte then some (place + 1) else none
  | none => none

/-! ### The search -/

/-- A template that is expanded up to some place. -/
structure Scan where
  output : List Char
  rest : List Char
  values : List Value

/-- What a round of the search leads to. -/
inductive Round
  | goes (next : Scan)
  | ends (text : List Char)

namespace Scan

/-- Passes over what a `%` stands for: a pair, a conversion or the `%` alone. -/
def pass? (scan : Scan) : Option Scan :=
  if (bytes scan.rest).take 2 = bytes ['%', '%'] then
    (cut? scan.rest 2).map fun parts => ⟨scan.output ++ ['%'], parts.2, scan.values⟩
  else
    match conversionLength? (bytes scan.rest) with
    | some length =>
      (cut? scan.rest length).map fun parts =>
        match scan.values with
        | value :: values => ⟨scan.output ++ value.chars, parts.2, values⟩
        | [] => ⟨scan.output ++ parts.1, parts.2, []⟩
    | none => (cut? scan.rest 1).map fun parts => ⟨scan.output ++ ['%'], parts.2, scan.values⟩

/-- Copies what stands before the next `%` and passes over that. The search ends where there is
none. -/
def round? (scan : Scan) : Option Round :=
  match (bytes scan.rest).findIdx? (isByte (· = '%')) with
  | none => some (.ends (scan.output ++ scan.rest))
  | some place =>
    (cut? scan.rest place).bind fun parts =>
      (pass? ⟨scan.output ++ parts.1, parts.2, scan.values⟩).map .goes

/-- The text at the end of the search, which takes fewer rounds than a bound. There is none where a
cut cannot be made. -/
def run? : Nat → Scan → Option (List Char)
  | 0, _ => none
  | bound + 1, scan =>
    scan.round?.bind fun
      | .goes next => next.run? bound
      | .ends text => some text

end Scan

/-! ### Offsets between characters -/

theorem bytes_append (front back : List Char) : bytes (front ++ back) = bytes front ++ bytes back :=
  List.flatMap_append

theorem bytes_cons (char : Char) (rest : List Char) :
    bytes (char :: rest) = String.utf8EncodeChar char ++ bytes rest := List.flatMap_cons

/-- **A cut at the number of bytes of some characters falls behind these.** -/
theorem cut?_append (front back : List Char) :
    cut? (front ++ back) (bytes front).length = some (front, back) := by
  induction front with
  | nil => rw [bytes, List.flatMap_nil, List.length_nil, cut?]; rfl
  | cons char front step =>
    have length : (bytes (char :: front)).length = char.utf8Size + (bytes front).length := by
      rw [bytes_cons, List.length_append, String.length_utf8EncodeChar]
    obtain ⟨size, positive⟩ := Nat.exists_eq_succ_of_ne_zero char.utf8Size_pos.ne'
    rw [length, List.cons_append, positive, Nat.succ_add, cut?, positive]
    rw [if_pos (by omega)]
    have left : size + (bytes front).length + 1 - size.succ = (bytes front).length := by omega
    rw [left, step]
    rfl

/-! ### Bytes of single characters -/

/-- A character of one byte is that byte. -/
theorem utf8EncodeChar_of_narrow {char : Char} (narrow : char.toNat < 128) :
    String.utf8EncodeChar char = [UInt8.ofNat char.toNat] := by
  have small : char.val.toNat ≤ 127 := Nat.le_of_lt_succ narrow
  unfold String.utf8EncodeChar
  simp only
  rw [if_pos small]
  rfl

/-- All bytes of a longer character are none of a single one. -/
theorem le_of_mem_utf8EncodeChar {char : Char} (wide : 128 ≤ char.toNat) :
    ∀ byte ∈ String.utf8EncodeChar char, 128 ≤ byte := by
  have large : ¬ char.val.toNat ≤ 127 := Nat.not_le.mpr wide
  unfold String.utf8EncodeChar
  simp only
  rw [if_neg large]
  split
  · simp [UInt8.le_iff_toNat_le]
    omega
  · split
    · simp [UInt8.le_iff_toNat_le]
      omega
    · simp [UInt8.le_iff_toNat_le]
      omega

theorem isByte_of_le (isPart : Char → Bool) {byte : UInt8} (wide : 128 ≤ byte) :
    isByte isPart byte = false := by
  have none : ¬ byte < 128 := UInt8.not_lt.mpr wide
  simp [isByte, none]

theorem isByte_ofNat (isPart : Char → Bool) {char : Char} (narrow : char.toNat < 128) :
    isByte isPart (UInt8.ofNat char.toNat) = isPart char := by
  have same : (UInt8.ofNat char.toNat).toNat = char.toNat := by
    rw [UInt8.toNat_ofNat']
    omega
  have inside : UInt8.ofNat char.toNat < 128 := by
    rw [UInt8.lt_iff_toNat_lt, same]
    exact narrow
  rw [isByte, same, Char.ofNat_toNat, decide_eq_true inside, Bool.true_and]

/-- A part of a conversion has characters of one byte only. -/
def Narrow (isPart : Char → Bool) : Prop := ∀ char, isPart char → char.toNat < 128

variable {isPart : Char → Bool}

/-- **A character belongs to a part when its first byte does**, and its other bytes never do. -/
theorem exists_utf8EncodeChar (narrow : Narrow isPart) (char : Char) :
    ∃ byte more, String.utf8EncodeChar char = byte :: more ∧ isByte isPart byte = isPart char ∧
      (isPart char → more = []) ∧ ∀ other ∈ more, isByte isPart other = false := by
  by_cases small : char.toNat < 128
  · exact ⟨_, [], utf8EncodeChar_of_narrow small, isByte_ofNat isPart small, fun _ => rfl, nofun⟩
  · have wide := le_of_mem_utf8EncodeChar (Nat.not_lt.mp small)
    have outside : ¬ isPart char := fun inside => small (narrow char inside)
    cases said : String.utf8EncodeChar char with
    | nil =>
      have length := String.length_utf8EncodeChar char
      rw [said] at length
      exact absurd length char.utf8Size_pos.ne
    | cons byte more =>
      rw [said] at wide
      refine ⟨byte, more, rfl, ?_, fun inside => absurd inside outside, fun other member =>
        isByte_of_le isPart (wide other (List.mem_cons_of_mem byte member))⟩
      rw [isByte_of_le isPart (wide byte List.mem_cons_self), Bool.eq_false_iff.mpr outside]

/-! ### Parts as bytes -/

/-- **The bytes that are taken for a part are those of its characters.** -/
theorem takeWhile_bytes (narrow : Narrow isPart) (text : List Char) :
    (bytes text).takeWhile (isByte isPart) = bytes (text.takeWhile isPart) := by
  induction text with
  | nil => rfl
  | cons char rest step =>
    obtain ⟨byte, more, encoded, same, single, -⟩ := exists_utf8EncodeChar narrow char
    rw [bytes_cons, encoded, List.cons_append]
    by_cases inside : isPart char
    · rw [List.takeWhile_cons_of_pos (same.trans inside), single inside, List.nil_append, step,
        List.takeWhile_cons_of_pos inside, bytes_cons, encoded, single inside]
      rfl
    · rw [List.takeWhile_cons_of_neg (same ▸ inside), List.takeWhile_cons_of_neg inside]
      rfl

theorem narrow_of_letters {letters : List Char} (known : ∀ char, isPart char ↔ char ∈ letters)
    (small : letters.all (·.toNat < 128) = true) : Narrow isPart := fun char inside =>
  of_decide_eq_true (List.all_eq_true.mp small char ((known char).mp inside))

/-- A part is passed at the offset behind its characters, and what follows it is left. -/
theorem passPart_eq (narrow : Narrow isPart) {whole front text : List Char}
    (split : whole = front ++ text) {place : Nat} (here : place = (bytes front).length) :
    passPart isPart (bytes whole) place = (bytes (front ++ text.takeWhile isPart)).length ∧
      whole = (front ++ text.takeWhile isPart) ++ text.dropWhile isPart := by
  constructor
  · rw [passPart, split, here, bytes_append, List.drop_left, takeWhile_bytes narrow, bytes_append,
      List.length_append]
  · rw [List.append_assoc, List.takeWhile_append_dropWhile, split]

/-- The byte behind some characters is the first one of what follows them. -/
theorem getElem?_bytes {whole front back : List Char} (split : whole = front ++ back) :
    (bytes whole)[(bytes front).length]? = (bytes back).head? := by
  rw [split, bytes_append, List.getElem?_append_right le_rfl, Nat.sub_self, List.head?_eq_getElem?]

/-- **The number of bytes of a conversion** is that of its characters. -/
theorem conversionLength?_eq (text : List Char) :
    conversionLength? (bytes ('%' :: text)) =
      (conversion? text).map fun parts => (bytes ('%' :: parts.1)).length := by
  have start : '%' :: text = ['%'] ++ text := rfl
  have first : 1 = (bytes ['%']).length := by decide
  obtain ⟨flags, afterFlags⟩ :=
    passPart_eq (narrow_of_letters isFlag_iff (by decide)) start first
  obtain ⟨measures, afterMeasures⟩ :=
    passPart_eq (narrow_of_letters isMeasure_iff (by decide)) afterFlags flags
  obtain ⟨lengths, afterLengths⟩ :=
    passPart_eq (narrow_of_letters isLength_iff (by decide)) afterMeasures measures
  unfold conversionLength? conversion?
  simp only [lengths, getElem?_bytes afterLengths]
  cases ((text.dropWhile isFlag).dropWhile isMeasure).dropWhile isLength with
  | nil => rfl
  | cons kind rest =>
    obtain ⟨byte, more, encoded, same, single, -⟩ :=
      exists_utf8EncodeChar (narrow_of_letters isKind_iff (by decide)) kind
    rw [bytes_cons, encoded, List.cons_append, List.head?_cons]
    dsimp only
    rw [same]
    split
    · next known =>
      have last : bytes [kind] = [byte] := by
        rw [bytes_cons, encoded, single known]
        rfl
      rw [Option.map_some, ← List.length_singleton (a := byte), ← last, ← List.length_append,
        ← bytes_append]
      simp only [List.append_assoc, List.cons_append, List.nil_append]
    · rfl

theorem narrow_percent : Narrow (· = '%') := fun char same => by
  rw [of_decide_eq_true same]
  decide

/-- The search stops at the first `%`. -/
theorem findIdx?_bytes {front : List Char} (plain : '%' ∉ front) (rest : List Char) :
    (bytes front).findIdx? (isByte (· = '%')) = none ∧
      (bytes (front ++ '%' :: rest)).findIdx? (isByte (· = '%')) = some (bytes front).length := by
  have none : (bytes front).findIdx? (isByte (· = '%')) = none := by
    rw [List.findIdx?_eq_none_iff]
    intro byte member
    obtain ⟨char, inFront, encodes⟩ := List.mem_flatMap.mp member
    obtain ⟨first, more, encoded, same, -, others⟩ := exists_utf8EncodeChar narrow_percent char
    rw [encoded] at encodes
    rcases List.mem_cons.mp encodes with rfl | inMore
    · rw [same, decide_eq_false_iff_not]
      rintro rfl
      exact plain inFront
    · exact others byte inMore
  refine ⟨none, ?_⟩
  rw [bytes_append, List.findIdx?_append, none, Option.none_or, bytes_cons]
  have found : (String.utf8EncodeChar '%' ++ bytes rest).findIdx? (isByte (· = '%')) = some 0 := by
    have encoded : String.utf8EncodeChar '%' = [37] := by decide
    rw [encoded]
    rfl
  rw [found, Option.map_some, Nat.zero_add]

/-! ### Rounds -/

namespace Scan

/-- The text at the end, by the template that is left. -/
def text (scan : Scan) : List Char := scan.output ++ expand scan.rest scan.values

/-- A `%` is followed by another one just where the first two bytes are theirs. -/
theorem take_bytes_eq_iff (text : List Char) :
    (bytes ('%' :: text)).take 2 = bytes ['%', '%'] ↔ ['%'] <+: text := by
  have percent : String.utf8EncodeChar '%' = [37] := by decide
  have pair : bytes ['%', '%'] = [37, 37] := by decide
  rw [bytes_cons, percent, pair]
  cases text with
  | nil => exact iff_of_false (by decide) (by decide)
  | cons char rest =>
    obtain ⟨byte, more, encoded, same, -⟩ := exists_utf8EncodeChar narrow_percent char
    rw [bytes_cons, encoded]
    constructor
    · intro twice
      obtain rfl : byte = 37 := by simpa using twice
      have isPercent : decide (char = '%') = true := same.symm.trans (by decide)
      rw [of_decide_eq_true isPercent]
      exact ⟨rest, rfl⟩
    · rintro ⟨behind, twice⟩
      obtain ⟨rfl, -⟩ := List.cons.inj twice
      obtain ⟨rfl, -⟩ := List.cons.inj (encoded.symm.trans percent)
      rfl

/-- **What a `%` stands for is passed over**, and the text at the end stays the same. -/
theorem exists_pass? (output text : List Char) (values : List Value) :
    ∃ next, pass? ⟨output, '%' :: text, values⟩ = some next ∧
      next.text = output ++ expand ('%' :: text) values ∧ next.rest.length ≤ text.length := by
  unfold pass?
  simp only [take_bytes_eq_iff]
  split
  · next paired =>
    obtain ⟨rest, rfl⟩ := paired
    have cut : cut? ('%' :: '%' :: rest) 2 = some (['%', '%'], rest) := cut?_append ['%', '%'] rest
    refine ⟨⟨output ++ ['%'], rest, values⟩, congrArg (Option.map _) cut, ?_, Nat.le_succ _⟩
    show output ++ ['%'] ++ expand rest values = output ++ expand ('%' :: '%' :: rest) values
    rw [expand_percent, List.append_assoc]
    rfl
  · next unpaired =>
    rw [conversionLength?_eq]
    cases found : conversion? text with
    | none =>
      have cut : cut? ('%' :: text) 1 = some (['%'], text) := cut?_append ['%'] text
      refine ⟨⟨output ++ ['%'], text, values⟩, congrArg (Option.map _) cut, ?_, le_rfl⟩
      show output ++ ['%'] ++ expand text values = output ++ expand ('%' :: text) values
      rw [expand, expand, segments_of_lone unpaired found, fill, List.append_assoc]
      rfl
    | some parts =>
      obtain ⟨marker, rest⟩ := parts
      obtain ⟨-, rfl⟩ := conversion?_eq_some_iff.mp found
      have cut := cut?_append ('%' :: marker) rest
      have shorter : rest.length ≤ (marker ++ rest).length := by
        rw [List.length_append]
        exact Nat.le_add_left _ _
      cases values with
      | nil =>
        refine ⟨⟨output ++ '%' :: marker, rest, []⟩, congrArg (Option.map _) cut, ?_, shorter⟩
        show output ++ '%' :: marker ++ expand rest [] =
          output ++ expand ('%' :: (marker ++ rest)) []
        rw [expand, expand, segments_of_conversion found, fill, List.append_assoc]
      | cons value values =>
        refine ⟨⟨output ++ value.chars, rest, values⟩, congrArg (Option.map _) cut, ?_, shorter⟩
        show output ++ value.chars ++ expand rest values =
          output ++ expand ('%' :: (marker ++ rest)) (value :: values)
        rw [expand, expand, segments_of_conversion found, fill, List.append_assoc]

/-- What a round leads to has the text at the end that was there before, and less to search. -/
inductive Leads (scan : Scan) : Round → Prop
  | ends : Leads scan (.ends scan.text)
  | goes {next : Scan} (same : next.text = scan.text)
      (shorter : next.rest.length < scan.rest.length) : Leads scan (.goes next)

/-- **Every round can be made.** -/
theorem exists_round? (scan : Scan) : ∃ round, scan.round? = some round ∧ scan.Leads round := by
  obtain ⟨output, rest, values⟩ := scan
  by_cases member : '%' ∈ rest
  · obtain ⟨front, back, rfl, plain⟩ := List.eq_append_cons_of_mem member
    obtain ⟨next, passed, text, shorter⟩ := exists_pass? (output ++ front) back values
    have round : round? ⟨output, front ++ '%' :: back, values⟩ = some (.goes next) := by
      unfold round?
      simp only [(findIdx?_bytes plain back).2, cut?_append, Option.bind_some, passed,
        Option.map_some]
    refine ⟨.goes next, round, .goes ?_ ?_⟩
    · rw [text, Scan.text, expand_append_of_plain plain, List.append_assoc]
    · rw [List.length_append, List.length_cons]
      omega
  · have round : round? ⟨output, rest, values⟩ = some (.ends (output ++ rest)) := by
      unfold round?
      simp only [(findIdx?_bytes member []).1]
    have text : Scan.text ⟨output, rest, values⟩ = output ++ rest :=
      congrArg (output ++ ·) (expand_plain rest values member)
    exact ⟨_, round, text ▸ .ends⟩

/-- **The search ends with the expanded template**, after as many rounds as there are characters and
one at most. -/
theorem run?_eq (scan : Scan) {bound : Nat} (enough : scan.rest.length < bound) :
    scan.run? bound = some scan.text := by
  induction bound generalizing scan with
  | zero => exact absurd enough (Nat.not_lt_zero _)
  | succ bound step =>
    obtain ⟨round, made, leads⟩ := scan.exists_round?
    rw [run?, made, Option.bind_some]
    cases leads with
    | ends => rfl
    | goes same shorter =>
      rw [← same]
      exact step _ (Nat.lt_of_lt_of_le shorter (Nat.le_of_lt_succ enough))

end Scan

end SqlDraft.Template
