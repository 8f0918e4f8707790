import Predictive.Proofs.Words
import Predictive.Text.Json

/-!
The written form of a JSON value tells the value. The escape of a character cannot be taken for the beginning of
another one, nor for the quote that ends a string (`escape_append_inj`, `quoted_append_inj`), and the first
character of a value tells its kind. So also with more text behind them, two values that are written alike are equal
(`write_append_inj`, `render_injective`).
-/
namespace Predictive.Text.Json

/-! ### Strings -/

theorem shortEscape?_inj {c d short : Char} (one : shortEscape? c = some short) (other : shortEscape? d = some short) :
    c = d := by
  unfold shortEscape? at one other
  split at one <;> cases one <;> split at other <;> simp_all

/-- The letter of a short escape is not the one that begins a code. -/
theorem shortEscape?_ne_some : ∀ c, shortEscape? c ≠ some 'u' := by
  intro c
  unfold shortEscape?
  split <;> simp

/-- The forms in which a character is written. -/
inductive Escapes (c : Char) : List Char → Prop where
  | short {letter : Char} : shortEscape? c = some letter → Escapes c ['\\', letter]
  | code : c.toNat < 32 →
    Escapes c ['\\', 'u', '0', '0', Nat.digitChar (c.toNat / 16), Nat.digitChar (c.toNat % 16)]
  | plain : c ≠ '\\' → c ≠ '\x22' → Escapes c [c]

theorem escapes_escape (c : Char) : Escapes c (escape c) := by
  unfold escape
  split
  · next letter found => exact .short found
  · next none =>
    split
    · next control => exact .code control
    · refine .plain ?_ ?_
      · rintro rfl
        cases none
      · rintro rfl
        cases none

theorem digitChar_inj {one other : Nat} (small : one < 16) (smallOther : other < 16)
    (same : Nat.digitChar one = Nat.digitChar other) : one = other := by
  have all : ∀ a < 16, ∀ b < 16, Nat.digitChar a = Nat.digitChar b → a = b := by decide
  exact all one small other smallOther same

/-- Characters with the same code are equal. -/
theorem eq_of_digits {c d : Char} (control : c.toNat < 32) (controlOther : d.toNat < 32)
    (high : Nat.digitChar (c.toNat / 16) = Nat.digitChar (d.toNat / 16))
    (low : Nat.digitChar (c.toNat % 16) = Nat.digitChar (d.toNat % 16)) : c = d := by
  have sameHigh := digitChar_inj (by omega) (by omega) high
  have sameLow := digitChar_inj (by omega) (by omega) low
  refine Char.toNat_inj.mp ?_
  omega

/-- No escape of a character begins another one. -/
theorem escape_append_inj {c d : Char} {one other : List Char} (same : escape c ++ one = escape d ++ other) :
    c = d ∧ one = other := by
  have form := escapes_escape c
  have formOther := escapes_escape d
  generalize escape c = written at same form
  generalize escape d = writtenOther at same formOther
  cases form with
  | @short letter found =>
    cases formOther with
    | @short letterOther foundOther =>
      obtain ⟨rfl, rfl⟩ : letter = letterOther ∧ one = other := by simpa using same
      exact ⟨shortEscape?_inj found foundOther, rfl⟩
    | code _ =>
      obtain rfl : letter = 'u' := (List.cons.inj (List.cons.inj same).2).1
      exact absurd found (shortEscape?_ne_some c)
    | plain noBackslash _ => exact absurd (List.cons.inj same).1.symm noBackslash
  | code control =>
    cases formOther with
    | @short letterOther foundOther =>
      obtain rfl : 'u' = letterOther := (List.cons.inj (List.cons.inj same).2).1
      exact absurd foundOther (shortEscape?_ne_some d)
    | code controlOther =>
      simp only [List.cons_append, List.nil_append, List.cons.injEq, true_and] at same
      obtain ⟨high, low, rfl⟩ := same
      exact ⟨eq_of_digits control controlOther high low, rfl⟩
    | plain noBackslash _ => exact absurd (List.cons.inj same).1.symm noBackslash
  | plain noBackslash _ =>
    cases formOther with
    | short _ => exact absurd (List.cons.inj same).1 noBackslash
    | code _ => exact absurd (List.cons.inj same).1 noBackslash
    | plain _ _ => exact ⟨(List.cons.inj same).1, (List.cons.inj same).2⟩

/-- No character is written with a quote in front. -/
theorem escape_ne_quote {c : Char} {one other : List Char} : escape c ++ one ≠ '\x22' :: other := by
  intro same
  have form := escapes_escape c
  generalize escape c = written at same form
  cases form with
  | short _ => exact absurd (List.cons.inj same).1 (by decide)
  | code _ => exact absurd (List.cons.inj same).1 (by decide)
  | plain _ noQuote => exact noQuote (List.cons.inj same).1

theorem flatMap_escape_inj {chars others one other : List Char}
    (same : chars.flatMap escape ++ '\x22' :: one = others.flatMap escape ++ '\x22' :: other) :
    chars = others ∧ one = other := by
  induction chars generalizing others with
  | nil =>
    cases others with
    | nil => exact ⟨rfl, by simpa using same⟩
    | cons d rest => exact absurd same.symm (by simpa using escape_ne_quote)
  | cons c rest ih =>
    cases others with
    | nil => exact absurd same (by simpa using escape_ne_quote)
    | cons d restOther =>
      rw [List.flatMap_cons, List.flatMap_cons, List.append_assoc, List.append_assoc] at same
      obtain ⟨rfl, later⟩ := escape_append_inj same
      obtain ⟨rfl, rfl⟩ := ih later
      exact ⟨rfl, rfl⟩

/-- A quoted string ends where it ends, whatever stands behind it. -/
theorem quoted_append_inj {value valueOther : String} {one other : List Char}
    (same : quoted value ++ one = quoted valueOther ++ other) : value = valueOther ∧ one = other := by
  simp only [quoted, List.cons_append, List.append_assoc, List.nil_append, List.cons.injEq, true_and] at same
  obtain ⟨chars, rest⟩ := flatMap_escape_inj same
  exact ⟨String.toList_inj.mp chars, rest⟩

/-! ### Values -/

/-- A number that stands in front of the text ends there. -/
def EndsNumber (text : List Char) : Prop := ∀ c ∈ text.head?, c.isDigit = false

theorem toDigits_append_inj {value valueOther : Nat} {one other : List Char} (ends : EndsNumber one)
    (endsOther : EndsNumber other) (same : Nat.toDigits 10 value ++ one = Nat.toDigits 10 valueOther ++ other) :
    value = valueOther ∧ one = other := by
  obtain ⟨taken, dropped⟩ := takeWhile_run isDigit_of_mem_toDigits ends
  obtain ⟨takenOther, droppedOther⟩ := takeWhile_run isDigit_of_mem_toDigits endsOther
  rw [same] at taken dropped
  exact ⟨toDigits_inj (taken.symm.trans takenOther), dropped.symm.trans droppedOther⟩

/-- The kind of a value. -/
def rank : Json → Nat
  | number _ => 0
  | text _ => 1
  | list _ => 2
  | object _ => 3

/-- The kind of the values that begin with a character. -/
def rankOf (c : Char) : Nat :=
  if c.isDigit then 0 else if c = '\x22' then 1 else if c = '[' then 2 else if c = '\x7b' then 3 else 4

/-- The first character of a value tells its kind. -/
theorem exists_write_eq_cons (value : Json) : ∃ c rest, value.write = c :: rest ∧ rankOf c = value.rank := by
  cases value with
  | number value =>
    obtain ⟨first, rest, digits⟩ := List.exists_cons_of_ne_nil (Nat.toDigits_ne_nil (n := value) (b := 10))
    have digit : first.isDigit := isDigit_of_mem_toDigits first (by rw [digits]; exact List.mem_cons_self)
    exact ⟨first, rest, by rw [write, digits], if_pos digit⟩
  | text value => exact ⟨_, _, rfl, rfl⟩
  | list items =>
    cases items with
    | nil => exact ⟨_, _, by rw [write], rfl⟩
    | cons item rest => exact ⟨_, _, by rw [write]; rfl, rfl⟩
  | object fields =>
    cases fields with
    | nil => exact ⟨_, _, by rw [write], rfl⟩
    | cons field rest => exact ⟨_, _, by rw [write]; rfl, rfl⟩

theorem rankOf_eq {value : Json} {c : Char} {one other : List Char} (same : value.write ++ one = c :: other) :
    rankOf c = value.rank := by
  obtain ⟨first, rest, written, rank⟩ := exists_write_eq_cons value
  rw [written] at same
  rwa [← (List.cons.inj same).1]

/-- Values that are written alike are of one kind. -/
theorem rank_eq {value valueOther : Json} {one other : List Char}
    (same : value.write ++ one = valueOther.write ++ other) : value.rank = valueOther.rank := by
  obtain ⟨first, rest, written, rank⟩ := exists_write_eq_cons valueOther
  rw [written] at same
  exact (rankOf_eq same).symm.trans rank

/-- No value begins with the bracket that ends a list. -/
theorem write_ne_bracket {value : Json} {one other : List Char} : value.write ++ one ≠ ']' :: other := by
  intro same
  have rank : rankOf ']' = value.rank := rankOf_eq same
  cases value <;> cases rank

theorem endsNumber_writeItems (items : List Json) (text : List Char) : EndsNumber (writeItems items ++ text) := by
  intro c first
  cases items with
  | nil =>
    rw [writeItems] at first
    obtain rfl := Option.some.inj first
    rfl
  | cons item rest =>
    rw [writeItems] at first
    obtain rfl := Option.some.inj first
    rfl

theorem endsNumber_writeFields (fields : List (String × Json)) (text : List Char) :
    EndsNumber (writeFields fields ++ text) := by
  intro c first
  cases fields with
  | nil =>
    rw [writeFields] at first
    obtain rfl := Option.some.inj first
    rfl
  | cons field rest =>
    rw [writeFields] at first
    obtain rfl := Option.some.inj first
    rfl

/-! The induction is on the first value; a list of items and a list of fields have their own statements, because both
begin and end with marks of their own. -/

mutual
theorem write_append_inj : (value : Json) → {valueOther : Json} → {one other : List Char} → EndsNumber one →
    EndsNumber other → value.write ++ one = valueOther.write ++ other → value = valueOther ∧ one = other
  | number value, valueOther, one, other, ends, endsOther, same => by
    cases valueOther with
    | number valueOther =>
      rw [write, write] at same
      obtain ⟨rfl, rfl⟩ := toDigits_append_inj ends endsOther same
      exact ⟨rfl, rfl⟩
    | _ => cases rank_eq same
  | text value, valueOther, one, other, _, _, same => by
    cases valueOther with
    | text valueOther =>
      rw [write, write] at same
      obtain ⟨rfl, rfl⟩ := quoted_append_inj same
      exact ⟨rfl, rfl⟩
    | _ => cases rank_eq same
  | list [], valueOther, one, other, _, _, same => by
    cases valueOther with
    | list itemsOther =>
      cases itemsOther with
      | nil => exact ⟨rfl, by simpa [write] using same⟩
      | cons item rest => exact absurd (by simpa [write] using same.symm) write_ne_bracket
    | _ => cases rank_eq same
  | list (item :: rest), valueOther, one, other, _, _, same => by
    cases valueOther with
    | list itemsOther =>
      cases itemsOther with
      | nil => exact absurd (by simpa [write] using same) write_ne_bracket
      | cons itemOther restOther =>
        rw [write, write, List.cons_append, List.cons_append, List.append_assoc, List.append_assoc] at same
        obtain ⟨rfl, behind⟩ := write_append_inj item (endsNumber_writeItems rest one)
          (endsNumber_writeItems restOther other) (List.cons.inj same).2
        obtain ⟨rfl, rfl⟩ := writeItems_append_inj rest behind
        exact ⟨rfl, rfl⟩
    | _ => cases rank_eq same
  | object [], valueOther, one, other, _, _, same => by
    cases valueOther with
    | object fieldsOther =>
      cases fieldsOther with
      | nil => exact ⟨rfl, by simpa [write] using same⟩
      | cons field rest => simp [write, quoted] at same
    | _ => cases rank_eq same
  | object ((name, value) :: rest), valueOther, one, other, _, _, same => by
    cases valueOther with
    | object fieldsOther =>
      cases fieldsOther with
      | nil => simp [write, quoted] at same
      | cons fieldOther restOther =>
        obtain ⟨nameOther, valueOther⟩ := fieldOther
        simp only [write, List.cons_append, List.append_assoc, List.cons.injEq, true_and] at same
        obtain ⟨rfl, inside⟩ := quoted_append_inj same
        obtain ⟨rfl, behind⟩ := write_append_inj value (endsNumber_writeFields rest one)
          (endsNumber_writeFields restOther other) (List.cons.inj inside).2
        obtain ⟨rfl, rfl⟩ := writeFields_append_inj rest behind
        exact ⟨rfl, rfl⟩
    | _ => cases rank_eq same
theorem writeItems_append_inj : (items : List Json) → {itemsOther : List Json} → {one other : List Char} →
    writeItems items ++ one = writeItems itemsOther ++ other → items = itemsOther ∧ one = other
  | [], itemsOther, one, other, same => by
    cases itemsOther with
    | nil => exact ⟨rfl, by simpa [writeItems] using same⟩
    | cons item rest => simp [writeItems] at same
  | item :: rest, itemsOther, one, other, same => by
    cases itemsOther with
    | nil => simp [writeItems] at same
    | cons itemOther restOther =>
      rw [writeItems, writeItems, List.cons_append, List.cons_append, List.append_assoc, List.append_assoc] at same
      obtain ⟨rfl, behind⟩ := write_append_inj item (endsNumber_writeItems rest one)
        (endsNumber_writeItems restOther other) (List.cons.inj same).2
      obtain ⟨rfl, rfl⟩ := writeItems_append_inj rest behind
      exact ⟨rfl, rfl⟩
theorem writeFields_append_inj : (fields : List (String × Json)) → {fieldsOther : List (String × Json)} →
    {one other : List Char} → writeFields fields ++ one = writeFields fieldsOther ++ other →
    fields = fieldsOther ∧ one = other
  | [], fieldsOther, one, other, same => by
    cases fieldsOther with
    | nil => exact ⟨rfl, by simpa [writeFields] using same⟩
    | cons field rest => simp [writeFields] at same
  | (name, value) :: rest, fieldsOther, one, other, same => by
    cases fieldsOther with
    | nil => simp [writeFields] at same
    | cons fieldOther restOther =>
      obtain ⟨nameOther, valueOther⟩ := fieldOther
      simp only [writeFields, List.cons_append, List.append_assoc, List.cons.injEq, true_and] at same
      obtain ⟨rfl, inside⟩ := quoted_append_inj same
      obtain ⟨rfl, behind⟩ := write_append_inj value (endsNumber_writeFields rest one)
        (endsNumber_writeFields restOther other) (List.cons.inj inside).2
      obtain ⟨rfl, rfl⟩ := writeFields_append_inj rest behind
      exact ⟨rfl, rfl⟩
end

/-- Values with the same text are equal. -/
theorem render_injective : Function.Injective render := by
  intro value other same
  have written : value.write ++ [] = other.write ++ [] := by
    rw [List.append_nil, List.append_nil]
    exact String.ofList_inj.mp same
  exact (write_append_inj value (by simp [EndsNumber]) (by simp [EndsNumber]) written).1

end Predictive.Text.Json
