import Mathlib
import Solo.Literal

/-!
# Texts of literals

The text of a literal says which one it is. A quoted character can be read back from the front of
any text, whatever follows it and whichever characters stand for themselves, so quoted texts differ
where their characters do. The kind is seen from the first character and the last.
-/

namespace Solo

/-! ### Hexadecimal numbers -/

namespace Text

def hexDigit (d : Char) : Nat := if d.isDigit then d.toNat - '0'.toNat else d.toNat - 'a'.toNat + 10

def hexValue (digits : List Char) : Nat := digits.foldl (fun n d => 16 * n + hexDigit d) 0

theorem hexDigit_digitChar : ∀ n < 16, hexDigit (Nat.digitChar n) = n := by decide

theorem digitChar_ne_brace : ∀ n < 16, Nat.digitChar n ≠ '}' := by decide

theorem hexValue_toDigits (n : Nat) : hexValue (Nat.toDigits 16 n) = n := by
  induction n using Nat.strongRecOn with
  | ind n ih =>
    by_cases small : n < 16
    · rw [Nat.toDigits_of_lt_base small]
      exact (Nat.zero_add _).trans (hexDigit_digitChar n small)
    · have smaller : n / 16 < n := by omega
      rw [Nat.toDigits_of_base_le (by decide) (Nat.le_of_not_lt small), hexValue, List.foldl_append]
      change 16 * hexValue (Nat.toDigits 16 (n / 16)) + hexDigit (Nat.digitChar (n % 16)) = n
      rw [ih _ smaller, hexDigit_digitChar _ (Nat.mod_lt _ (by decide))]
      exact Nat.div_add_mod n 16

/-- The brace after a number is not one of its digits. -/
theorem brace_notMem_toDigits (n : Nat) : '}' ∉ Nat.toDigits 16 n := by
  induction n using Nat.strongRecOn with
  | ind n ih =>
    by_cases small : n < 16
    · rw [Nat.toDigits_of_lt_base small, List.mem_singleton]
      exact (digitChar_ne_brace n small).symm
    · have smaller : n / 16 < n := by omega
      rw [Nat.toDigits_of_base_le (by decide) (Nat.le_of_not_lt small), List.mem_append,
        List.mem_singleton, not_or]
      exact ⟨ih _ smaller, (digitChar_ne_brace _ (Nat.mod_lt _ (by decide))).symm⟩

/-! ### Reading quoted text back -/

/-- The character at the front of quoted text, and the rest. -/
def unquoteChar : List Char → Option (Char × List Char)
  | '\\' :: '0' :: rest => some ('\x00', rest)
  | '\\' :: 't' :: rest => some ('\t', rest)
  | '\\' :: 'r' :: rest => some ('\r', rest)
  | '\\' :: 'n' :: rest => some ('\n', rest)
  | '\\' :: 'u' :: '{' :: rest =>
    some (Char.ofNat (hexValue (rest.takeWhile (· ≠ '}'))), (rest.dropWhile (· ≠ '}')).tail)
  | '\\' :: c :: rest => some (c, rest)
  | c :: rest => some (c, rest)
  | [] => none

/-- A delimiter that no escape is named after. -/
def Delimits (delim : Char) : Prop := delim ∉ ['0', 't', 'r', 'n', 'u']

instance (delim : Char) : Decidable (Delimits delim) :=
  inferInstanceAs (Decidable (delim ∉ ['0', 't', 'r', 'n', 'u']))

theorem unquoteChar_escaped {c : Char} {rest : List Char} (plain : Delimits c) :
    unquoteChar ('\\' :: c :: rest) = some (c, rest) := by
  simp only [Delimits, List.mem_cons, List.not_mem_nil, or_false, not_or] at plain
  obtain ⟨null, tab, feed, line, number⟩ := plain
  simp [unquoteChar, number]

theorem unquoteChar_plain {c : Char} {rest : List Char} (plain : c ≠ '\\') :
    unquoteChar (c :: rest) = some (c, rest) := by
  simp [unquoteChar, plain]

theorem unquoteChar_number (c : Char) (rest : List Char) :
    unquoteChar ('\\' :: 'u' :: '{' :: (Nat.toDigits 16 c.toNat ++ '}' :: rest)) =
      some (c, rest) := by
  have digits : ∀ d ∈ Nat.toDigits 16 c.toNat, decide (d ≠ '}') = true := by
    rintro d mem
    refine decide_eq_true ?_
    rintro rfl
    exact brace_notMem_toDigits _ mem
  rw [unquoteChar, List.takeWhile_append_of_pos digits, List.dropWhile_append_of_pos digits]
  simp [hexValue_toDigits, Char.ofNat_toNat]

variable {delim : Char} {plain : Char → Bool}

/-- A quoted character is read back, whatever follows. -/
theorem unquoteChar_quoteChar (delimits : Delimits delim) (c : Char) (rest : List Char) :
    unquoteChar (quoteChar delim plain c ++ rest) = some (c, rest) := by
  unfold quoteChar
  split
  · next null =>
    subst null
    rfl
  split
  · next tab =>
    subst tab
    rfl
  split
  · next feed =>
    subst feed
    rfl
  split
  · next line =>
    subst line
    rfl
  split
  · next escaped =>
    refine unquoteChar_escaped ?_
    rcases escaped with rfl | rfl
    · decide
    · exact delimits
  next escaped =>
  split
  · exact unquoteChar_plain fun slash => escaped (.inl slash)
  · simpa using unquoteChar_number c rest

theorem quoteChar_ne_nil (c : Char) : quoteChar delim plain c ≠ [] := by
  unfold quoteChar
  repeat' split
  all_goals simp

/-- Quoted characters are cancelled from the front one by one. -/
theorem flatMap_quoteChar_inj (delimits : Delimits delim) {cs ds : List Char}
    (same : cs.flatMap (quoteChar delim plain) = ds.flatMap (quoteChar delim plain)) : cs = ds := by
  induction cs generalizing ds with
  | nil =>
    cases ds with
    | nil => rfl
    | cons d ds => exact absurd (List.append_eq_nil_iff.mp same.symm).1 (quoteChar_ne_nil d)
  | cons c cs ih =>
    cases ds with
    | nil => exact absurd (List.append_eq_nil_iff.mp same).1 (quoteChar_ne_nil c)
    | cons d ds =>
      have front := congrArg unquoteChar same
      rw [List.flatMap_cons, List.flatMap_cons, unquoteChar_quoteChar delimits,
        unquoteChar_quoteChar delimits] at front
      obtain ⟨rfl, rest⟩ := Prod.mk.inj (Option.some.inj front)
      rw [ih rest]

theorem quote_injective (delimits : Delimits delim) :
    Function.Injective (quote delim plain) := by
  intro cs ds same
  have inner := List.append_cancel_right (List.cons.inj (String.ofList_inj.mp same)).2
  exact flatMap_quoteChar_inj delimits inner

end Text

/-! ### Kinds -/

namespace Literal

/-- The kind of the literal with a text, as its first and last characters tell. -/
def kindOfText : List Char → Kind
  | '"' :: _ => .string
  | '\'' :: _ => .char
  | '(' :: _ => .unit
  | 'n' :: _ => .null
  | 't' :: _ | 'f' :: _ => .boolean
  | cs => if cs.getLast? = some 'L' then .long else .int

def Numeral (c : Char) : Prop := c = '-' ∨ c.isDigit = true

theorem numeral_toString {i : Int} {c : Char} (mem : c ∈ (toString i).toList) : Numeral c := by
  have digits : ∀ n : Nat, c ∈ (Nat.repr n).toList → c.isDigit = true := fun n mem =>
    Nat.isDigit_of_mem_toDigits (by decide) (by decide) (Nat.toList_repr ▸ mem)
  rw [Int.toString_eq_repr, Int.repr_eq_if] at mem
  split at mem
  · exact .inr (digits _ mem)
  · rw [String.toList_append, List.mem_append] at mem
    rcases mem with sign | digit
    · exact .inl (List.mem_singleton.mp sign)
    · exact .inr (digits _ digit)

theorem kindOfText_numeral {cs : List Char} {c : Char} (numeral : Numeral c) :
    kindOfText (c :: cs) = if (c :: cs).getLast? = some 'L' then .long else .int := by
  unfold kindOfText
  split <;> first | rfl | simp_all [Numeral]

/-- A numeral is not empty, and it does not end with the suffix of a long. -/
theorem numeral_cons (i : Int) :
    ∃ c cs, (toString i).toList = c :: cs ∧ Numeral c ∧ ¬(c :: cs).getLast? = some 'L' := by
  cases text : (toString i).toList with
  | nil =>
    rw [Int.toString_eq_repr, Int.repr_eq_if] at text
    split at text <;> simp [Nat.toList_repr, Nat.toDigits_ne_nil] at text
  | cons c cs =>
    have numerals : ∀ d ∈ c :: cs, Numeral d := fun d mem => numeral_toString (text ▸ mem)
    refine ⟨c, cs, rfl, numerals c List.mem_cons_self, fun last => ?_⟩
    have suffix := numerals 'L' (List.mem_of_getLast? last)
    rcases suffix with sign | digit
    · exact absurd sign (by decide)
    · exact absurd digit (by decide)

theorem kindOfText_sourceWith {v : Literal} {plain : Char → Bool} (notDouble : v.kind ≠ .double) :
    kindOfText (v.sourceWith plain).toList = v.kind := by
  cases v with
  | int v =>
    obtain ⟨c, cs, text, numeral, last⟩ := numeral_cons v.toInt
    rw [sourceWith, display, text, kindOfText_numeral numeral, if_neg last]
    · rfl
    all_goals nofun
  | long v =>
    obtain ⟨c, cs, text, numeral, -⟩ := numeral_cons v.toInt
    have last : (c :: (cs ++ "L".toList)).getLast? = some 'L' :=
      List.getLast?_concat (l := c :: cs)
    rw [sourceWith, String.toList_append, text, List.cons_append, kindOfText_numeral numeral,
      if_pos last]
    rfl
  | double v => exact absurd rfl notDouble
  | bool v => cases v <;> simp [sourceWith, display, kindOfText, kind]
  | str v => simp [sourceWith, Text.quote, kindOfText, kind]
  | char v => simp [sourceWith, Text.quote, kindOfText, kind]
  | unit | null => simp [sourceWith, display, kindOfText, kind]

/-! ### Literals -/

variable {plain : Char → Bool}

theorem eq_of_sourceWith {a b : Literal} (kinds : a.kind = b.kind) (notDouble : a.kind ≠ .double)
    (same : a.sourceWith plain = b.sourceWith plain) : a = b := by
  cases a with
  | int v =>
    cases b <;> cases kinds
    exact congrArg int (Int32.toInt_inj.mp (Int.repr_inj.mp same))
  | long v =>
    cases b <;> cases kinds
    refine congrArg long (Int64.toInt_inj.mp (Int.repr_inj.mp (String.toList_inj.mp ?_)))
    have texts := congrArg String.toList same
    rw [sourceWith, sourceWith, String.toList_append, String.toList_append] at texts
    exact List.append_cancel_right texts
  | double v => exact absurd rfl notDouble
  | bool v =>
    cases b <;> cases kinds
    next w =>
      cases v <;> cases w <;> first | rfl | exact absurd same (by simp [sourceWith, display])
  | str v =>
    cases b <;> cases kinds
    exact congrArg str (String.toList_inj.mp (Text.quote_injective (by decide) same))
  | char v =>
    cases b <;> cases kinds
    exact congrArg char (List.singleton_inj.mp (Text.quote_injective (by decide) same))
  | unit | null =>
    cases b <;> cases kinds
    rfl

/-- Two literals other than doubles have the same text only if they are the same, and two texts
are quoted in the same way only if they are the same; whichever characters stand for themselves. -/
theorem sourceWith_injective :
    (∀ plain, Set.InjOn (sourceWith plain) { v | v.kind ≠ .double }) ∧
    Set.InjOn source { v | v.kind ≠ .double } ∧
    ∀ plain, Function.Injective (Text.quote '"' plain) ∧
      Function.Injective (Text.quote '\'' plain) := by
  have apart : ∀ plain, Set.InjOn (sourceWith plain) { v | v.kind ≠ .double } := by
    intro plain a exactA b exactB same
    have kinds : a.kind = b.kind := by
      rw [← kindOfText_sourceWith exactA, ← kindOfText_sourceWith exactB, same]
    exact eq_of_sourceWith kinds exactA same
  exact ⟨apart, apart Text.isVisible,
    fun plain => ⟨Text.quote_injective (by decide), Text.quote_injective (by decide)⟩⟩

/-- An escape that is spelled out in a text is not taken for the character. -/
theorem sourceWith_injective_spelled : (str "\n").source ≠ (str "\\n").source := by
  intro same
  exact absurd (sourceWith_injective.2.1 (by decide) (by decide) same) (by decide)

end Literal

end Solo
