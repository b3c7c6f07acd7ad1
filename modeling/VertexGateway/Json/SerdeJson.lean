import VertexGateway.Json.Doubles
import VertexGateway.Text.Hex

/-!
# Printing and parsing JSON text

The gateway parses and prints JSON through `serde_json`, which enters the model as a parameter:
`SerdeJson` is its pair of functions, and what is relied on is said of the values that are printed,
by `SerdeJson.ReadsBack`, and of the printed text, by `SerdeJson.Printable`. The compact printer and
parser below are one instance, so the assumptions can be met; floating-point numbers aside, they
write what the library writes and read it back.
-/

namespace VertexGateway

/-- `from_str::<Value>` and the `Display` of a value. -/
structure SerdeJson where
  fromStr : String → Option Value
  display : Value → String

/-- Printed and parsed again, the value is the same as far as `view` shows it. The library gives no
more than that for doubles, and refuses text nested beyond its limit. -/
def SerdeJson.ReadsBack (serde : SerdeJson) (view : Value → Value) (value : Value) : Prop :=
  (serde.fromStr (serde.display value)).map view = some (view value)

namespace Json

open Hex (hexValue hexValue_digitChar)

/-! ## The compact printer -/

/-- The characters with a two-character escape, with the letter that names each. -/
def shortEscapes : List (Char × Char) :=
  [('"', '"'), ('\\', '\\'), ('b', '\x08'), ('f', '\x0C'), ('n', '\n'), ('r', '\r'), ('t', '\t')]

def writeChar (c : Char) : List Char :=
  match shortEscapes.find? (·.2 == c) with
  | some (letter, _) => ['\\', letter]
  | none =>
    if c.toNat < 0x20 then
      ['\\', 'u', '0', '0', (c.toNat / 16).digitChar, (c.toNat % 16).digitChar]
    else [c]

def writeString (s : String) : List Char :=
  '"' :: (s.toList.flatMap writeChar ++ ['"'])

/-- A double is written as its bits, with an exponent that tells it from an integer. -/
def writeNumber : Number → List Char
  | .posInt value => Nat.toDigits 10 value.toNat
  | .negInt value => '-' :: Nat.toDigits 10 value.1.toInt.natAbs
  | .float bits => Nat.toDigits 10 bits.toNat ++ ['e', '0']

def separated : List (List Char) → List Char
  | [] => []
  | [piece] => piece
  | piece :: pieces => piece ++ ',' :: separated pieces

mutual

def write : Value → List Char
  | .null => ['n', 'u', 'l', 'l']
  | .bool true => ['t', 'r', 'u', 'e']
  | .bool false => ['f', 'a', 'l', 's', 'e']
  | .number n => writeNumber n
  | .string s => writeString s
  | .array items => '[' :: (separated (writeItems items) ++ [']'])
  | .object map => '{' :: (separated (writeMembers map) ++ ['}'])
termination_by structural value => value

def writeItems : List Value → List (List Char)
  | [] => []
  | item :: items => write item :: writeItems items
termination_by structural items => items

/-- Members come in ascending key order. -/
def writeMembers : FiniteMap String Value → List (List Char)
  | ⟨dom, val⟩ => (FiniteMap.sortedKeys ⟨dom, val⟩).attach.map fun key ↦
      writeString key.1 ++ ':' :: write (val ⟨key.1, (FiniteMap.mem_sortedKeys _ _).mp key.2⟩)
termination_by structural map => map

end

theorem writeItems_eq (items : List Value) : writeItems items = items.map write := by
  induction items with
  | nil => rfl
  | cons item items ih => rw [writeItems, ih, List.map_cons]

def writeMember (member : String × Value) : List Char :=
  writeString member.1 ++ ':' :: write member.2

theorem writeMembers_eq (map : FiniteMap String Value) :
    writeMembers map = map.entries.map writeMember := by
  rw [writeMembers, FiniteMap.entries, List.map_map]
  rfl

/-! ## The parser -/

def parseUnicode (digits : List Char) : Option Char := do
  let values ← digits.mapM hexValue
  let code := values.foldl (fun acc value ↦ 16 * acc + value) 0
  if code.isValidChar then some (Char.ofNat code) else none

/-- A string's text after the opening quote. -/
def parseChars : List Char → Option (List Char × List Char)
  | [] => none
  | '"' :: rest => some ([], rest)
  | '\\' :: 'u' :: first :: second :: third :: fourth :: rest => do
    let c ← parseUnicode [first, second, third, fourth]
    (parseChars rest).map fun parsed ↦ (c :: parsed.1, parsed.2)
  | '\\' :: letter :: rest => do
    let entry ← shortEscapes.find? (·.1 == letter)
    (parseChars rest).map fun parsed ↦ (entry.2 :: parsed.1, parsed.2)
  | c :: rest =>
    if c.toNat < 0x20 then none
    else (parseChars rest).map fun parsed ↦ (c :: parsed.1, parsed.2)

def parseDigits (text : List Char) : Option (ℕ × List Char) :=
  if text.takeWhile Char.isDigit = [] then none
  else some (Nat.ofDigitChars 10 (text.takeWhile Char.isDigit) 0, text.dropWhile Char.isDigit)

def parseNumber : List Char → Option (Number × List Char)
  | '-' :: text => do
    let (value, rest) ← parseDigits text
    if h : Int64.ofInt (-value) < 0 then some (.negInt ⟨Int64.ofInt (-value), h⟩, rest) else none
  | text => do
    let (value, rest) ← parseDigits text
    if ['e', '0'].isPrefixOf rest then some (.float (UInt64.ofNat value), rest.drop 2)
    else some (.posInt (UInt64.ofNat value), rest)

/-- Items between commas, up to the closing bracket. -/
def parseSeparated {α : Type} (item : List Char → Option (α × List Char)) (close : Char) :
    ℕ → List Char → Option (List α × List Char)
  | 0, _ => none
  | fuel + 1, text => do
    let (first, rest) ← item text
    match rest with
    | [] => none
    | c :: rest =>
      if c = close then some ([first], rest)
      else if c = ',' then
        (parseSeparated item close fuel rest).map fun parsed ↦ (first :: parsed.1, parsed.2)
      else none

def parseList {α : Type} (item : List Char → Option (α × List Char)) (close : Char)
    (text : List Char) : Option (List α × List Char) :=
  if text.head? = some close then some ([], text.tail)
  else parseSeparated item close text.length text

def parseMember (parse : List Char → Option (Value × List Char)) :
    List Char → Option ((String × Value) × List Char)
  | '"' :: text => do
    let (key, rest) ← parseChars text
    match rest with
    | ':' :: rest =>
      (parse rest).map fun parsed ↦ ((String.ofList key, parsed.1), parsed.2)
    | _ => none
  | _ => none

/-- The fuel bounds the nesting depth. -/
def parseValue : ℕ → List Char → Option (Value × List Char)
  | 0, _ => none
  | fuel + 1, text =>
    match parseNumber text with
    | some (n, rest) => some (.number n, rest)
    | none =>
      match text with
      | 'n' :: 'u' :: 'l' :: 'l' :: rest => some (.null, rest)
      | 't' :: 'r' :: 'u' :: 'e' :: rest => some (.bool true, rest)
      | 'f' :: 'a' :: 'l' :: 's' :: 'e' :: rest => some (.bool false, rest)
      | '"' :: rest =>
        (parseChars rest).map fun parsed ↦ (.string (String.ofList parsed.1), parsed.2)
      | '[' :: rest =>
        (parseList (parseValue fuel) ']' rest).map fun parsed ↦ (.array parsed.1, parsed.2)
      | '{' :: rest =>
        (parseList (parseMember (parseValue fuel)) '}' rest).map fun parsed ↦
          (.object (FiniteMap.ofList parsed.1), parsed.2)
      | _ => none

/-! ## What is printed is read back -/

/-- Text that may follow a value: nothing, a comma or a closing bracket. -/
def Delimited (rest : List Char) : Prop :=
  ∀ c ∈ rest.head?, c = ',' ∨ c = ']' ∨ c = '}'

theorem parseUnicode_control (c : Char) (h : c.toNat < 0x20) :
    parseUnicode ['0', '0', (c.toNat / 16).digitChar, (c.toNat % 16).digitChar] = some c := by
  have hhigh := hexValue_digitChar (c.toNat / 16) (by omega)
  have hlow := hexValue_digitChar (c.toNat % 16) (by omega)
  have hcode : 16 * (c.toNat / 16) + c.toNat % 16 = c.toNat := by omega
  have hvalid : c.toNat.isValidChar := c.valid
  have hzero : hexValue '0' = some 0 := by decide
  simp [parseUnicode, hhigh, hlow, hzero, hcode, hvalid]

theorem parseChars_plain {c : Char} (hquote : c ≠ '"') (hbackslash : c ≠ '\\')
    (hplain : ¬ c.toNat < 0x20) (rest : List Char) :
    parseChars (c :: rest) = (parseChars rest).map fun parsed ↦ (c :: parsed.1, parsed.2) := by
  rw [parseChars, if_neg hplain]
  · exact hquote
  · intro _ _ _ _ _ hescape
    exact absurd hescape hbackslash
  · intro _ _ hescape
    exact absurd hescape hbackslash

theorem parseChars_writeChar (c : Char) (rest : List Char) :
    parseChars (writeChar c ++ rest) =
      (parseChars rest).map fun parsed ↦ (c :: parsed.1, parsed.2) := by
  rw [writeChar]
  split
  · next letter named hfind =>
    have hnamed : named = c := by simpa using List.find?_some hfind
    have hmem := List.mem_of_find?_eq_some hfind
    subst hnamed
    simp only [shortEscapes, List.mem_cons, Prod.mk.injEq, List.not_mem_nil, or_false] at hmem
    rcases hmem with ⟨rfl, rfl⟩ | ⟨rfl, rfl⟩ | ⟨rfl, rfl⟩ | ⟨rfl, rfl⟩ | ⟨rfl, rfl⟩ | ⟨rfl, rfl⟩ |
      ⟨rfl, rfl⟩ <;> rfl
  · next hfind =>
    have hnone := List.find?_eq_none.mp hfind
    split
    · next hcontrol =>
      simp only [List.cons_append, List.nil_append]
      rw [parseChars, parseUnicode_control c hcontrol]
      rfl
    · next hplain =>
      have hquote : c ≠ '"' := by
        rintro rfl
        exact hnone ('"', '"') (by decide) (by decide)
      have hbackslash : c ≠ '\\' := by
        rintro rfl
        exact hnone ('\\', '\\') (by decide) (by decide)
      rw [List.singleton_append]
      exact parseChars_plain hquote hbackslash hplain rest

theorem parseChars_writeString (s : String) (rest : List Char) :
    parseChars (s.toList.flatMap writeChar ++ '"' :: rest) = some (s.toList, rest) := by
  induction s.toList with
  | nil => rfl
  | cons c chars ih =>
    rw [List.flatMap_cons, List.append_assoc, parseChars_writeChar, ih, Option.map_some]

theorem isDigit_of_mem_toDigits {value : ℕ} {c : Char} (h : c ∈ Nat.toDigits 10 value) :
    c.isDigit = true :=
  Nat.isDigit_of_mem_toDigits (by decide) (by decide) h

theorem parseDigits_toDigits (value : ℕ) {rest : List Char}
    (h : ∀ c ∈ rest.head?, c.isDigit = false) :
    parseDigits (Nat.toDigits 10 value ++ rest) = some (value, rest) := by
  have htake : rest.takeWhile Char.isDigit = [] ∧ rest.dropWhile Char.isDigit = rest := by
    cases rest with
    | nil => simp
    | cons c rest => simp [h c rfl]
  rw [parseDigits, List.takeWhile_append_of_pos fun _ ↦ isDigit_of_mem_toDigits,
    List.dropWhile_append_of_pos fun _ ↦ isDigit_of_mem_toDigits, htake.1, htake.2,
    List.append_nil, if_neg Nat.toDigits_ne_nil, Nat.ofDigitChars_ten_toDigits]

/-- Digits are no sign, so an unsigned number is read by the second rule. -/
theorem parseNumber_toDigits (value : ℕ) (rest : List Char) :
    parseNumber (Nat.toDigits 10 value ++ rest) =
      (parseDigits (Nat.toDigits 10 value ++ rest)).bind fun parsed ↦
        if ['e', '0'].isPrefixOf parsed.2 then
          some (.float (UInt64.ofNat parsed.1), parsed.2.drop 2)
        else some (.posInt (UInt64.ofNat parsed.1), parsed.2) := by
  cases hdigits : Nat.toDigits 10 value with
  | nil => exact absurd hdigits Nat.toDigits_ne_nil
  | cons c digits =>
    have hmem : c ∈ Nat.toDigits 10 value := hdigits ▸ List.mem_cons_self
    have hdigit := isDigit_of_mem_toDigits hmem
    rw [List.cons_append, parseNumber]
    · rfl
    · rintro text heq
      rw [(List.cons.inj heq).1] at hdigit
      exact absurd hdigit (by decide)

theorem Delimited.isDigit_eq_false {rest : List Char} (h : Delimited rest) :
    ∀ c ∈ rest.head?, c.isDigit = false := by
  intro c hc
  rcases h c hc with rfl | rfl | rfl <;> decide

theorem Delimited.no_exponent {rest : List Char} (h : Delimited rest) :
    ['e', '0'].isPrefixOf rest = false := by
  cases rest with
  | nil => rfl
  | cons c rest => rcases h c rfl with rfl | rfl | rfl <;> rfl

theorem parseNumber_writeNumber (n : Number) {rest : List Char} (h : Delimited rest) :
    parseNumber (writeNumber n ++ rest) = some (n, rest) := by
  cases n with
  | posInt value =>
    rw [writeNumber, parseNumber_toDigits, parseDigits_toDigits _ h.isDigit_eq_false,
      Option.bind_some, h.no_exponent, UInt64.ofNat_toNat]
    rfl
  | negInt value =>
    have hneg : value.1.toInt < 0 := Int64.lt_iff_toInt_lt.mp value.2
    have hvalue : Int64.ofInt (-(value.1.toInt.natAbs : ℤ)) = value.1 := by
      rw [show -(value.1.toInt.natAbs : ℤ) = value.1.toInt by omega, Int64.ofInt_toInt]
    rw [writeNumber, List.cons_append, parseNumber, parseDigits_toDigits _ h.isDigit_eq_false]
    simp only [Option.bind_eq_bind, Option.bind_some, hvalue, value.2, dif_pos]
  | float bits =>
    have hend : ∀ c ∈ ('e' :: '0' :: rest).head?, c.isDigit = false := by
      rintro c ⟨⟩
      decide
    rw [writeNumber, List.append_assoc, parseNumber_toDigits, List.cons_append, List.cons_append,
      List.nil_append, parseDigits_toDigits _ hend, Option.bind_some, UInt64.ofNat_toNat]
    rfl

theorem length_le_separated (pieces : List (List Char)) :
    pieces.length ≤ (separated pieces).length + 1 := by
  fun_induction separated pieces with
  | case1 => simp
  | case2 => simp
  | case3 piece pieces _ ih =>
    simp only [List.length_cons, List.length_append]
    omega

theorem length_le_separated_of_mem {pieces : List (List Char)} {piece : List Char}
    (h : piece ∈ pieces) : piece.length ≤ (separated pieces).length := by
  fun_induction separated pieces with
  | case1 => exact absurd h List.not_mem_nil
  | case2 only => rw [List.mem_singleton.mp h]
  | case3 head pieces _ ih =>
    simp only [List.length_append, List.length_cons]
    rcases List.mem_cons.mp h with rfl | h
    · omega
    · have hle := ih h
      omega

section Lists

variable {α : Type} {item : List Char → Option (α × List Char)} {print : α → List Char}

theorem parseSeparated_separated {close : Char} (hclose : close = ']' ∨ close = '}')
    {items : List α} (hitems : items ≠ []) (hitem : ∀ value ∈ items, ∀ rest, Delimited rest →
      item (print value ++ rest) = some (value, rest)) (rest : List Char) {fuel : ℕ}
    (hfuel : items.length ≤ fuel) :
    parseSeparated item close fuel (separated (items.map print) ++ close :: rest) =
      some (items, rest) := by
  have hend : Delimited (close :: rest) := by
    rintro c ⟨⟩
    exact Or.inr hclose
  have hcomma (tail : List Char) : Delimited (',' :: tail) := by
    rintro c ⟨⟩
    exact Or.inl rfl
  have hne : ',' ≠ close := by
    rcases hclose with rfl | rfl <;> decide
  induction items generalizing fuel with
  | nil => exact absurd rfl hitems
  | cons head items ih =>
    obtain _ | fuel := fuel
    · exact absurd hfuel (Nat.not_succ_le_zero _)
    cases items with
    | nil => simp [parseSeparated, separated, hitem head List.mem_cons_self _ hend]
    | cons next items =>
      have hrest := ih (List.cons_ne_nil _ _)
        (fun value hvalue ↦ hitem value (List.mem_cons_of_mem _ hvalue))
        (Nat.le_of_succ_le_succ hfuel)
      simp only [List.map_cons] at hrest ⊢
      simp only [separated, parseSeparated, List.append_assoc, List.cons_append,
        hitem head List.mem_cons_self _ (hcomma _), Option.bind_eq_bind, Option.bind_some, hne,
        if_false, if_true, hrest, Option.map_some]

theorem parseList_separated {close : Char} (hclose : close = ']' ∨ close = '}') {items : List α}
    (hitem : ∀ value ∈ items, ∀ rest, Delimited rest →
      item (print value ++ rest) = some (value, rest))
    (hhead : ∀ value ∈ items, ∀ rest, (print value ++ rest).head? ≠ some close)
    (rest : List Char) :
    parseList item close (separated (items.map print) ++ close :: rest) = some (items, rest) := by
  cases items with
  | nil => simp [parseList, separated]
  | cons head items =>
    have hfront : (separated ((head :: items).map print) ++ close :: rest).head? ≠ some close := by
      cases items with
      | nil => exact hhead head List.mem_cons_self _
      | cons next items =>
        simp only [List.map_cons, separated, List.append_assoc]
        exact hhead head List.mem_cons_self _
    have hfuel : (head :: items).length ≤
        (separated ((head :: items).map print) ++ close :: rest).length := by
      have hle := length_le_separated ((head :: items).map print)
      simp only [List.length_append, List.length_map, List.length_cons] at hle ⊢
      omega
    rw [parseList, if_neg hfront,
      parseSeparated_separated hclose (List.cons_ne_nil _ _) hitem rest hfuel]

end Lists

theorem head?_write_ne (value : Value) (rest : List Char) :
    (write value ++ rest).head? ≠ some ']' := by
  cases value with
  | bool b => cases b <;> simp [write]
  | number n =>
    have hdigits (value : ℕ) (tail : List Char) :
        (Nat.toDigits 10 value ++ tail).head? ≠ some ']' := by
      cases hdigits : Nat.toDigits 10 value with
      | nil => exact absurd hdigits Nat.toDigits_ne_nil
      | cons c digits =>
        have hmem : c ∈ Nat.toDigits 10 value := hdigits ▸ List.mem_cons_self
        have hdigit := isDigit_of_mem_toDigits hmem
        rw [List.cons_append, List.head?_cons, ne_eq, Option.some.injEq]
        rintro rfl
        exact absurd hdigit (by decide)
    cases n with
    | posInt value => exact hdigits _ _
    | negInt value => simp [write, writeNumber]
    | float bits =>
      rw [write, writeNumber, List.append_assoc]
      exact hdigits _ _
  | _ => simp [write, writeString]

theorem parseValue_string (fuel : ℕ) (text : List Char) :
    parseValue (fuel + 1) ('"' :: text) =
      (parseChars text).map fun parsed ↦ (.string (String.ofList parsed.1), parsed.2) := rfl

theorem parseValue_array (fuel : ℕ) (text : List Char) :
    parseValue (fuel + 1) ('[' :: text) =
      (parseList (parseValue fuel) ']' text).map fun parsed ↦ (.array parsed.1, parsed.2) := rfl

theorem parseValue_object (fuel : ℕ) (text : List Char) :
    parseValue (fuel + 1) ('{' :: text) =
      (parseList (parseMember (parseValue fuel)) '}' text).map fun parsed ↦
        (.object (FiniteMap.ofList parsed.1), parsed.2) := rfl

theorem parseMember_writeMember {parse : List Char → Option (Value × List Char)}
    (member : String × Value) {rest : List Char}
    (h : parse (write member.2 ++ rest) = some (member.2, rest)) :
    parseMember parse (writeMember member ++ rest) = some (member, rest) := by
  simp only [writeMember, writeString, List.cons_append, List.append_assoc, List.nil_append,
    parseMember, parseChars_writeString, Option.bind_eq_bind, Option.bind_some, h,
    Option.map_some, String.ofList_toList]

/-- A parser with fuel for the nesting depth reads a printed value back and stops behind it. -/
theorem parseValue_write (value : Value) {fuel : ℕ} (hfuel : (write value).length < fuel)
    {rest : List Char} (hrest : Delimited rest) :
    parseValue fuel (write value ++ rest) = some (value, rest) := by
  induction value generalizing fuel rest with
  | null =>
    obtain ⟨fuel, rfl⟩ := Nat.exists_eq_add_of_lt hfuel
    rfl
  | bool b =>
    obtain ⟨fuel, rfl⟩ := Nat.exists_eq_add_of_lt hfuel
    cases b <;> rfl
  | number n =>
    obtain ⟨fuel, rfl⟩ := Nat.exists_eq_add_of_lt hfuel
    rw [parseValue.eq_def]
    simp only [write, parseNumber_writeNumber n hrest]
  | string s =>
    obtain ⟨fuel, rfl⟩ := Nat.exists_eq_add_of_lt hfuel
    rw [write, writeString, List.cons_append, List.append_assoc, List.singleton_append,
      parseValue_string, parseChars_writeString, Option.map_some, String.ofList_toList]
  | array items ih =>
    obtain _ | fuel := fuel
    · exact absurd hfuel (Nat.not_lt_zero _)
    rw [write, writeItems_eq] at hfuel ⊢
    have hitem : ∀ item ∈ items, ∀ tail, Delimited tail →
        parseValue fuel (write item ++ tail) = some (item, tail) := by
      intro item hitem tail htail
      refine ih item hitem ?_ htail
      have hle := length_le_separated_of_mem (List.mem_map_of_mem (f := write) hitem)
      simp only [List.length_cons, List.length_append] at hfuel
      omega
    rw [List.cons_append, List.append_assoc, List.singleton_append, parseValue_array,
      parseList_separated (Or.inl rfl) hitem fun item _ ↦ head?_write_ne item, Option.map_some]
  | object map ih =>
    obtain _ | fuel := fuel
    · exact absurd hfuel (Nat.not_lt_zero _)
    rw [write, writeMembers_eq] at hfuel ⊢
    have hmember : ∀ member ∈ map.entries, ∀ tail, Delimited tail →
        parseMember (parseValue fuel) (writeMember member ++ tail) = some (member, tail) := by
      intro member hmember tail htail
      refine parseMember_writeMember member
        (ih member.1 member.2 (map.get?_of_mem_entries hmember) ?_ htail)
      have hle := length_le_separated_of_mem (List.mem_map_of_mem (f := writeMember) hmember)
      simp only [writeMember, List.length_cons, List.length_append] at hfuel hle
      omega
    rw [List.cons_append, List.append_assoc, List.singleton_append, parseValue_object,
      parseList_separated (Or.inr rfl) hmember fun member _ tail ↦ by simp [writeMember, writeString],
      Option.map_some, FiniteMap.ofList_entries]

/-! ## Printed text is one line -/

theorem write_ne_nil (value : Value) : write value ≠ [] := by
  cases value with
  | bool b => cases b <;> simp [write]
  | number n => cases n <;> simp [write, writeNumber, Nat.toDigits_ne_nil]
  | _ => simp [write, writeString]

/-- Text without control characters, so without line breaks. -/
def Printable (text : List Char) : Prop :=
  ∀ c ∈ text, 0x20 ≤ c.toNat

/-- Line breaks are control characters. -/
theorem Printable.notMem {text : List Char} (h : Printable text) {c : Char} (hc : c.toNat < 0x20) :
    c ∉ text :=
  fun hmem ↦ Nat.not_lt.mpr (h c hmem) hc

@[simp]
theorem printable_nil : Printable [] := by
  simp [Printable]

@[simp]
theorem printable_cons (c : Char) (text : List Char) :
    Printable (c :: text) ↔ 0x20 ≤ c.toNat ∧ Printable text := by
  simp [Printable]

@[simp]
theorem printable_append (front back : List Char) :
    Printable (front ++ back) ↔ Printable front ∧ Printable back := by
  simp [Printable, or_imp, forall_and]

theorem printable_digitChar : ∀ digit < 16, 0x20 ≤ digit.digitChar.toNat := by
  decide

/-- Every character is either escaped or plain, and the escapes are letters and digits. -/
theorem printable_writeChar (c : Char) : Printable (writeChar c) := by
  rw [writeChar]
  split
  · next letter named hfind =>
    have hmem := List.mem_of_find?_eq_some hfind
    have hletters : ∀ entry ∈ shortEscapes, 0x20 ≤ entry.1.toNat := by decide
    simp [hletters (letter, named) hmem]
  · split
    · simp [printable_digitChar (c.toNat / 16) (by omega),
        printable_digitChar (c.toNat % 16) (by omega)]
    · next hplain => simpa using hplain

theorem printable_writeString (s : String) : Printable (writeString s) := by
  have hchars : Printable (s.toList.flatMap writeChar) := by
    intro c hc
    obtain ⟨original, -, hc⟩ := List.mem_flatMap.mp hc
    exact printable_writeChar original c hc
  simp [writeString, hchars]

theorem printable_toDigits (value : ℕ) : Printable (Nat.toDigits 10 value) := by
  intro c hc
  have hdigit := isDigit_of_mem_toDigits hc
  simp only [Char.isDigit, Bool.and_eq_true, decide_eq_true_eq, UInt32.le_iff_toNat_le] at hdigit
  have hzero : 0x20 ≤ ('0' : Char).val.toNat := by decide
  exact hzero.trans hdigit.1

theorem printable_writeNumber (n : Number) : Printable (writeNumber n) := by
  cases n <;> simp [writeNumber, printable_toDigits]

theorem printable_separated {pieces : List (List Char)} (h : ∀ piece ∈ pieces, Printable piece) :
    Printable (separated pieces) := by
  fun_induction separated pieces with
  | case1 => exact printable_nil
  | case2 piece => exact h piece List.mem_cons_self
  | case3 piece pieces _ ih =>
    simp [h piece List.mem_cons_self, ih fun next hnext ↦ h next (List.mem_cons_of_mem _ hnext)]

theorem printable_write (value : Value) : Printable (write value) := by
  induction value with
  | null => simp [write]
  | bool b => cases b <;> simp [write]
  | number n => exact printable_writeNumber n
  | string s => exact printable_writeString s
  | array items ih =>
    have hitems : Printable (separated (items.map write)) :=
      printable_separated (List.forall_mem_map.mpr ih)
    simp [write, writeItems_eq, hitems]
  | object map ih =>
    have hmembers : Printable (separated (map.entries.map writeMember)) := by
      apply printable_separated
      rw [List.forall_mem_map]
      intro member hmember
      have hvalue := ih member.1 member.2 (map.get?_of_mem_entries hmember)
      simp [writeMember, printable_writeString, hvalue]
    simp [write, writeMembers_eq, hmembers]

end Json

/-- A printed value is one line of text: strings escape control characters, nothing is laid out
over several lines, and no value is printed as nothing. -/
structure SerdeJson.Printable (serde : SerdeJson) : Prop where
  display_printable : ∀ value, Json.Printable (serde.display value).toList
  display_ne_empty : ∀ value, serde.display value ≠ ""

/-- The compact printer and parser. -/
def SerdeJson.compact : SerdeJson where
  display value := String.ofList (Json.write value)
  fromStr text :=
    match Json.parseValue (text.toList.length + 1) text.toList with
    | some (value, []) => some value
    | _ => none

namespace SerdeJson

theorem fromStr_display_compact (value : Value) :
    compact.fromStr (compact.display value) = some value := by
  have hend : Json.Delimited [] := by simp [Json.Delimited]
  have hparse := Json.parseValue_write value (Nat.lt_succ_self _) hend
  rw [List.append_nil] at hparse
  simp only [compact, String.toList_ofList, hparse]

theorem readsBack_compact (view : Value → Value) (value : Value) :
    compact.ReadsBack view value := by
  rw [ReadsBack, fromStr_display_compact, Option.map_some]

theorem fromStr_done_compact : compact.fromStr "[DONE]" = none := by
  decide +kernel

/-- The sentinel is no JSON text, so no value is printed as it. -/
theorem display_ne_done_compact (value : Value) : compact.display value ≠ "[DONE]" := by
  intro heq
  have hread := fromStr_display_compact value
  rw [heq, fromStr_done_compact] at hread
  exact Option.some_ne_none value hread.symm

theorem printable_compact : compact.Printable where
  display_printable value := by
    simp only [compact, String.toList_ofList]
    exact Json.printable_write value
  display_ne_empty value := by
    have hhead := Json.write_ne_nil value
    simpa [compact] using hhead

end SerdeJson

end VertexGateway
