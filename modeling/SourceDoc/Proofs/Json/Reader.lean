import Mathlib.Data.List.TakeWhile
import SourceDoc.Json

namespace SourceDoc.Json

/-- Whether a character may stand between the parts of a value. -/
def isSpace (c : Char) : Bool :=
  c == ' ' || c == '\n' || c == '\r' || c == '\t'

/-- Drops the space a text starts with. -/
def skipSpace (t : Text) : Text :=
  t.dropWhile isSpace

/-- The character that a character after a backslash stands for. -/
def shortEscape? : Char → Option Char
  | '"' => some '"'
  | '\\' => some '\\'
  | '/' => some '/'
  | 'n' => some '\n'
  | 'r' => some '\r'
  | 't' => some '\t'
  | 'b' => some '\x08'
  | 'f' => some '\x0c'
  | _ => none

/-- Value of a hexadecimal digit. -/
def hexValue? (c : Char) : Option Nat :=
  let n := c.toNat
  if 48 ≤ n ∧ n ≤ 57 then some (n - 48)
  else if 97 ≤ n ∧ n ≤ 102 then some (n - 87)
  else if 65 ≤ n ∧ n ≤ 70 then some (n - 55)
  else none

/-- The character with a code of four hexadecimal digits, if the code is one of a character. -/
def charOfHex? (a b c d : Char) : Option Char := do
  let n := 4096 * (← hexValue? a) + 256 * (← hexValue? b) + 16 * (← hexValue? c) + (← hexValue? d)
  if n.isValidChar then some (Char.ofNat n) else none

/-- Reads a string from after its opening quote on. -/
def readString : Text → Option (Text × Text)
  | [] => none
  | c :: cs =>
    if c = '"' then some ([], cs)
    else if c = '\\' then
      match cs with
      | 'u' :: a :: b :: c :: d :: rest => do
        let char ← charOfHex? a b c d
        (readString rest).map fun (t, rest) => (char :: t, rest)
      | e :: rest => do
        let char ← shortEscape? e
        (readString rest).map fun (t, rest) => (char :: t, rest)
      | [] => none
    else if c.toNat < 0x20 then none
    else (readString cs).map fun (t, rest) => (c :: t, rest)

/-- What follows a value inside brackets. -/
inductive Next where
  /-- The closing bracket, and the text after it. -/
  | closed (rest : Text)
  /-- A comma, and the text from the next value on. -/
  | comma (rest : Text)

/-- Reads what follows a value inside brackets of which the closing one is given. -/
def next? (close : Char) (t : Text) : Option Next :=
  match skipSpace t with
  | [] => none
  | c :: cs =>
    if c = close then some (.closed cs)
    else if c = ',' then some (.comma (skipSpace cs))
    else none

/-- Reads the name of a member up to its value. -/
def readName : Text → Option (Text × Text)
  | '"' :: cs => do
    let (name, rest) ← readString cs
    match skipSpace rest with
    | ':' :: rest => some (name, skipSpace rest)
    | _ => none
  | _ => none

/-- Reads a number. -/
def readNat (t : Text) : Json × Text :=
  (.nat (Nat.ofDigitChars 10 (t.takeWhile Text.isAsciiDigit) 0), t.dropWhile Text.isAsciiDigit)

/-- The values that are written as words. -/
def words : List (Text × Json) :=
  [("null", .null), ("true", .bool true), ("false", .bool false)]

/-- Reads a value that is written as a word. -/
def readWord (t : Text) : Option (Json × Text) :=
  words.findSome? fun (word, v) => (word.isPrefixOf? t).map (v, ·)

/-- Dropping space leaves no more text than there was, which is why the reader ends. -/
theorem length_skipSpace_le (t : Text) : (skipSpace t).length ≤ t.length :=
  (List.dropWhile_suffix isSpace).length_le

mutual

/-- Reads a value. The loops of the reader go on only where less text is left than before, so it
    ends on every text. -/
def readValue (t : Text) : Option (Json × Text) :=
  match t with
  | [] => none
  | c :: cs =>
    if c = '"' then (readString cs).map fun (s, rest) => (.str s, rest)
    else if c = '[' then
      if (skipSpace cs).head? = some ']' then some (.arr [], (skipSpace cs).tail)
      else (readValues (skipSpace cs)).map fun (vs, rest) => (.arr vs, rest)
    else if c = '\x7b' then
      if (skipSpace cs).head? = some '\x7d' then some (.obj [], (skipSpace cs).tail)
      else (readMembers (skipSpace cs)).map fun (ms, rest) => (.obj ms, rest)
    else if Text.isAsciiDigit c then some (readNat (c :: cs))
    else readWord (c :: cs)
termination_by (t.length, 0)
decreasing_by
  · exact .left _ _ (Nat.lt_succ_of_le (length_skipSpace_le cs))
  · exact .left _ _ (Nat.lt_succ_of_le (length_skipSpace_le cs))

/-- Reads the values of an array up to its end; there is at least one. -/
def readValues (t : Text) : Option (List Json × Text) :=
  match readValue t with
  | none => none
  | some (v, rest) =>
    match next? ']' rest with
    | some (.closed rest) => some ([v], rest)
    | some (.comma more) =>
      if more.length < t.length then
        (readValues more).map fun (vs, rest) => (v :: vs, rest)
      else none
    | none => none
termination_by (t.length, 1)

/-- Reads the members of an object up to its end; there is at least one. -/
def readMembers (t : Text) : Option (List (Text × Json) × Text) :=
  match readName t with
  | none => none
  | some (name, rest) =>
    if rest.length < t.length then
      match readValue rest with
      | none => none
      | some (v, rest) =>
        match next? '\x7d' rest with
        | some (.closed rest) => some ([(name, v)], rest)
        | some (.comma more) =>
          if more.length < t.length then
            (readMembers more).map fun (ms, rest) => ((name, v) :: ms, rest)
          else none
        | none => none
    else none
termination_by (t.length, 1)

end

/-- The value that a text stands for. Only space may stand before and after it. -/
def read? (t : Text) : Option Json :=
  match readValue (skipSpace t) with
  | some (v, rest) => if (skipSpace rest).isEmpty then some v else none
  | none => none

/-- Values by their parts: what holds of an array if it holds of its values, and of an object if it
    holds of the values of its members, holds of every value. -/
theorem induct {P : Json → Prop} (null : P .null) (bool : ∀ b, P (.bool b)) (nat : ∀ n, P (.nat n))
    (str : ∀ t, P (.str t)) (arr : ∀ vs, (∀ v ∈ vs, P v) → P (.arr vs))
    (obj : ∀ ms, (∀ m ∈ ms, P m.2) → P (.obj ms)) (v : Json) : P v :=
  match v with
  | .null => null
  | .bool b => bool b
  | .nat n => nat n
  | .str t => str t
  | .arr vs => arr vs fun v _ => induct null bool nat str arr obj v
  | .obj ms => obj ms fun m _ => induct null bool nat str arr obj m.2
termination_by sizeOf v
decreasing_by
  · rename_i hv
    have hlt := List.sizeOf_lt_of_mem hv
    simp only [Json.arr.sizeOf_spec]
    omega
  · rename_i hm
    have hlt := List.sizeOf_lt_of_mem hm
    obtain ⟨name, v⟩ := m
    simp only [Json.obj.sizeOf_spec, Prod.mk.sizeOf_spec] at hlt ⊢
    omega

section Strings

theorem hexValue?_hexDigit {n : Nat} (hn : n < 16) : hexValue? (hexDigit n) = some n := by
  have hall : ∀ m < 16, hexValue? (hexDigit m) = some m := by decide
  exact hall n hn

/-- A control character is the one its two last hexadecimal digits stand for. -/
theorem charOfHex?_control {c : Char} (hc : c.toNat < 0x20) :
    charOfHex? '0' '0' (hexDigit (c.toNat / 16)) (hexDigit (c.toNat % 16)) = some c := by
  have hzero : hexValue? '0' = some 0 := by decide
  have hhigh : hexValue? (hexDigit (c.toNat / 16)) = some (c.toNat / 16) :=
    hexValue?_hexDigit (by omega)
  have hlow : hexValue? (hexDigit (c.toNat % 16)) = some (c.toNat % 16) :=
    hexValue?_hexDigit (by omega)
  have hcode : 4096 * 0 + 256 * 0 + 16 * (c.toNat / 16) + c.toNat % 16 = c.toNat := by omega
  have hvalid : c.toNat.isValidChar := .inl (by omega)
  simp only [charOfHex?, hzero, hhigh, hlow, hcode, Option.bind_eq_bind, Option.bind_some,
    if_pos hvalid, Char.ofNat_toNat]

/-- A character is read back from how it is written inside a string. -/
theorem readString_escape (c : Char) (rest : Text) :
    readString (escape c ++ rest) = (readString rest).map fun (t, rest) => (c :: t, rest) := by
  unfold escape
  split
  case h_8 hquote hbackslash _ _ _ _ _ =>
    split
    · rename_i hcontrol
      rw [List.cons_append, readString.eq_def]
      simp [charOfHex?_control hcontrol]
    · rename_i hprintable
      rw [List.cons_append, readString.eq_def]
      simp only [if_neg hquote, if_neg hbackslash, if_neg hprintable]
      rfl
  all_goals
    rw [List.cons_append, readString.eq_def]
    rfl

/-- A string is read back up to its closing quote, whatever characters are in it. -/
theorem readString_quote (t rest : Text) :
    readString (t.flatMap escape ++ '"' :: rest) = some (t, rest) := by
  induction t with
  | nil =>
    rw [readString.eq_def]
    rfl
  | cons c cs ih =>
    rw [List.flatMap_cons, List.append_assoc, readString_escape, ih]
    rfl

end Strings

section Values

/-- The layout of a printed text is passed over. -/
theorem skipSpace_indent (level : Nat) (t : Text) :
    skipSpace (indent level ++ t) = skipSpace t := by
  have hblank : isSpace '\n' = true := by decide
  have hspaces : ∀ c ∈ List.replicate (2 * level) ' ', isSpace c = true := by
    intro c hc
    rw [List.eq_of_mem_replicate hc]
    decide
  rw [indent, List.cons_append, skipSpace, List.dropWhile_cons_of_pos hblank,
    List.dropWhile_append_of_pos hspaces, skipSpace]

theorem skipSpace_cons {c : Char} (hc : isSpace c = false) (t : Text) :
    skipSpace (c :: t) = c :: t := by
  simp [skipSpace, hc]

theorem isAsciiDigit_of_mem_ofNat {n : Nat} {c : Char} (hc : c ∈ Text.ofNat n) :
    Text.isAsciiDigit c = true :=
  Nat.isDigit_of_mem_toDigits (by decide) (by decide) hc

/-- A text that does not go on with a digit, so that a number before it ends there. -/
def EndsNumber (rest : Text) : Prop :=
  ∀ c ∈ rest.head?, Text.isAsciiDigit c = false

theorem endsNumber_cons {c : Char} (hc : Text.isAsciiDigit c = false) (t : Text) :
    EndsNumber (c :: t) := by
  intro d hd
  cases hd
  exact hc

/-- A number is read back, if no digit follows it. -/
theorem readNat_ofNat (n : Nat) {rest : Text} (hrest : EndsNumber rest) :
    readNat (Text.ofNat n ++ rest) = (.nat n, rest) := by
  have hdigits : ∀ c ∈ Text.ofNat n, Text.isAsciiDigit c = true :=
    fun c hc => isAsciiDigit_of_mem_ofNat hc
  have hstop : rest.takeWhile Text.isAsciiDigit = [] ∧ rest.dropWhile Text.isAsciiDigit = rest := by
    cases rest with
    | nil => exact ⟨rfl, rfl⟩
    | cons c rest => simp [hrest c rfl]
  rw [readNat, List.takeWhile_append_of_pos hdigits, List.dropWhile_append_of_pos hdigits, hstop.1,
    hstop.2, List.append_nil, Text.ofNat, Nat.ofDigitChars_ten_toDigits]

/-- A printed number starts with a digit, so with no other character. -/
theorem ofNat_eq_cons (n : Nat) :
    ∃ c cs, Text.ofNat n = c :: cs ∧ Text.isAsciiDigit c = true ∧
      ∀ d, Text.isAsciiDigit d = false → c ≠ d := by
  obtain ⟨c, cs, hn⟩ : ∃ c cs, Text.ofNat n = c :: cs :=
    List.exists_cons_of_ne_nil Nat.toDigits_ne_nil
  have hdigit : Text.isAsciiDigit c = true :=
    isAsciiDigit_of_mem_ofNat (n := n) (by rw [hn]; exact List.mem_cons_self)
  refine ⟨c, cs, hn, hdigit, ?_⟩
  rintro d hd rfl
  rw [hdigit] at hd
  cases hd

/-- A printed value starts with a character that is neither space nor a closing bracket. -/
theorem printAt_eq_cons (level : Nat) (v : Json) :
    ∃ c cs, printAt level v = c :: cs ∧ isSpace c = false ∧ c ≠ ']' ∧ c ≠ '\x7d' := by
  cases v with
  | null => exact ⟨'n', _, rfl, by decide, by decide, by decide⟩
  | bool b =>
    cases b with
    | true => exact ⟨'t', _, rfl, by decide, by decide, by decide⟩
    | false => exact ⟨'f', _, rfl, by decide, by decide, by decide⟩
  | nat n =>
    obtain ⟨c, cs, hn, -, hne⟩ := ofNat_eq_cons n
    refine ⟨c, cs, by rw [printAt, hn], ?_, hne _ (by decide), hne _ (by decide)⟩
    simp [isSpace, hne ' ' (by decide), hne '\n' (by decide), hne '\r' (by decide),
      hne '\t' (by decide)]
  | str t => exact ⟨'"', _, by rw [printAt, quote], by decide, by decide, by decide⟩
  | arr vs =>
    cases vs with
    | nil => exact ⟨'[', _, by rw [printAt]; rfl, by decide, by decide, by decide⟩
    | cons v vs => exact ⟨'[', _, by rw [printAt], by decide, by decide, by decide⟩
  | obj ms =>
    cases ms with
    | nil => exact ⟨'\x7b', _, by rw [printAt]; rfl, by decide, by decide, by decide⟩
    | cons m ms =>
      obtain ⟨name, v⟩ := m
      exact ⟨'\x7b', _, by rw [printAt], by decide, by decide, by decide⟩

/-- No space is lost in front of a printed value, for it does not start with any. -/
theorem skipSpace_printAt (level : Nat) (v : Json) (rest : Text) :
    skipSpace (printAt level v ++ rest) = printAt level v ++ rest := by
  obtain ⟨c, cs, hprint, hspace, -⟩ := printAt_eq_cons level v
  rw [hprint, List.cons_append, skipSpace_cons hspace]

/-- The closing bracket is found behind the layout before it. -/
theorem next?_closing (close : Char) (hclose : isSpace close = false) (level : Nat) (rest : Text) :
    next? close (indent level ++ close :: rest) = some (.closed rest) := by
  rw [next?, skipSpace_indent, skipSpace_cons hclose]
  simp

theorem next?_comma (close : Char) (hclose : close ≠ ',') {level : Nat} {t : Text}
    (ht : skipSpace t = t) : next? close (',' :: (indent level ++ t)) = some (.comma t) := by
  have hcomma : isSpace ',' = false := by decide
  rw [next?, skipSpace_cons hcomma]
  simp only [if_neg hclose.symm, if_true, skipSpace_indent, ht]

/-- The name of a member is read back up to its value. -/
theorem readName_quote {name t : Text} (ht : skipSpace t = t) :
    readName (quote name ++ (": ".toList ++ t)) = some (name, t) := by
  have hcolon : isSpace ':' = false := by decide
  have hspace : skipSpace (' ' :: t) = t := (List.dropWhile_cons_of_pos (by decide)).trans ht
  have hquote : quote name ++ (": ".toList ++ t) =
      '"' :: (name.flatMap escape ++ '"' :: (':' :: ' ' :: t)) := by
    simp [quote]
  rw [hquote, readName, readString_quote]
  simp only [Option.bind_eq_bind, Option.bind_some, skipSpace_cons hcolon, hspace]

/-- What is said of one value of an array or object: it is read back wherever it is printed. -/
def ReadsBack (v : Json) : Prop :=
  ∀ level rest, EndsNumber rest → readValue (printAt level v ++ rest) = some (v, rest)

/-- A number in an array ends where the next value or the end of the array begins. -/
theorem endsNumber_printValues (level close : Nat) (vs : List Json) (rest : Text) :
    EndsNumber (printValues level vs ++ (indent close ++ rest)) := by
  cases vs with
  | nil => exact endsNumber_cons (by decide) _
  | cons v vs =>
    rw [printValues]
    exact endsNumber_cons (by decide) _

theorem endsNumber_printMembers (level close : Nat) (ms : List (Text × Json)) (rest : Text) :
    EndsNumber (printMembers level ms ++ (indent close ++ rest)) := by
  cases ms with
  | nil => exact endsNumber_cons (by decide) _
  | cons m ms =>
    obtain ⟨name, v⟩ := m
    rw [printMembers]
    exact endsNumber_cons (by decide) _

/-- The values of an array are read back one after the other. -/
theorem readValues_print (level close : Nat) (rest : Text) {v : Json} {vs : List Json}
    (hv : v.ReadsBack) (hvs : ∀ w ∈ vs, w.ReadsBack) :
    readValues (printAt level v ++ (printValues level vs ++ (indent close ++ ']' :: rest))) =
      some (v :: vs, rest) := by
  induction vs generalizing v with
  | nil =>
    rw [readValues, hv level _ (endsNumber_printValues level close [] _), printValues,
      List.nil_append]
    simp only [next?_closing ']' (by decide)]
  | cons w ws ih =>
    obtain ⟨hw, hws⟩ := List.forall_mem_cons.mp hvs
    rw [readValues, hv level _ (endsNumber_printValues level close (w :: ws) _)]
    simp only [printValues, List.cons_append, List.append_assoc,
      next?_comma ']' (by decide) (skipSpace_printAt level w _), ih hw hws]
    rw [if_pos (by simp; omega)]
    rfl

/-- The members of an object are read back one after the other. -/
theorem readMembers_print (level close : Nat) (rest name : Text) {v : Json}
    {ms : List (Text × Json)} (hv : v.ReadsBack) (hms : ∀ m ∈ ms, m.2.ReadsBack) :
    readMembers (quote name ++ (": ".toList ++ (printAt level v ++ (printMembers level ms ++
      (indent close ++ '\x7d' :: rest))))) = some ((name, v) :: ms, rest) := by
  induction ms generalizing name v with
  | nil =>
    rw [readMembers, readName_quote (skipSpace_printAt level v _)]
    simp only [hv level _ (endsNumber_printMembers level close [] _)]
    rw [if_pos (by simp [quote]; omega), printMembers, List.nil_append,
      next?_closing '\x7d' (by decide)]
  | cons m ms ih =>
    obtain ⟨other, w⟩ := m
    obtain ⟨hw, hms⟩ := List.forall_mem_cons.mp hms
    have hquote : skipSpace (quote other ++ (": ".toList ++ (printAt level w ++
        (printMembers level ms ++ (indent close ++ '\x7d' :: rest))))) = _ :=
      skipSpace_cons (by decide) _
    rw [readMembers, readName_quote (skipSpace_printAt level v _)]
    simp only [hv level _ (endsNumber_printMembers level close ((other, w) :: ms) _)]
    rw [if_pos (by simp [quote]; omega)]
    simp only [printMembers, List.cons_append, List.append_assoc,
      next?_comma '\x7d' (by decide) hquote, ih other hw hms]
    rw [if_pos (by simp [quote]; omega)]
    rfl

/-- An array is read back if its values are. -/
theorem readsBack_arr {vs : List Json} (hvs : ∀ v ∈ vs, v.ReadsBack) : (arr vs).ReadsBack := by
  intro level rest _
  cases vs with
  | nil =>
    rw [printAt, readValue.eq_def]
    rfl
  | cons v vs =>
    obtain ⟨hv, hvs⟩ := List.forall_mem_cons.mp hvs
    obtain ⟨c, cs, hprint, -, hclosing, -⟩ := printAt_eq_cons (level + 1) v
    have hread := readValues_print (level + 1) level rest hv hvs
    simp only [printAt, List.cons_append, List.append_assoc, List.nil_append]
    rw [readValue, if_neg (by decide), if_pos rfl, skipSpace_indent, skipSpace_printAt, hread,
      if_neg (by simp [hprint, hclosing])]
    rfl

/-- An object is read back if the values of its members are. -/
theorem readsBack_obj {ms : List (Text × Json)} (hms : ∀ m ∈ ms, m.2.ReadsBack) :
    (obj ms).ReadsBack := by
  intro level rest _
  cases ms with
  | nil =>
    rw [printAt, readValue.eq_def]
    rfl
  | cons m ms =>
    obtain ⟨name, v⟩ := m
    obtain ⟨hv, hms⟩ := List.forall_mem_cons.mp hms
    have hread := readMembers_print (level + 1) level rest name hv hms
    have hquote (t : Text) : skipSpace (quote name ++ t) = quote name ++ t :=
      skipSpace_cons (by decide) _
    simp only [printAt, List.cons_append, List.append_assoc, List.nil_append]
    rw [readValue, if_neg (by decide), if_neg (by decide), if_pos rfl, skipSpace_indent, hquote,
      hread, if_neg (by simp [quote])]
    rfl

/-- Whatever is printed is read back, together with the text behind it. -/
theorem readsBack (v : Json) : v.ReadsBack := by
  induction v using induct with
  | null =>
    intro level rest _
    rw [printAt, readValue.eq_def]
    rfl
  | bool b =>
    intro level rest _
    cases b with
    | true =>
      rw [printAt, readValue.eq_def]
      rfl
    | false =>
      rw [printAt, readValue.eq_def]
      rfl
  | nat n =>
    intro level rest hrest
    obtain ⟨c, cs, hn, hdigit, hne⟩ := ofNat_eq_cons n
    have hread := readNat_ofNat n hrest
    rw [printAt]
    rw [hn, List.cons_append] at hread ⊢
    rw [readValue, if_neg (hne _ (by decide)), if_neg (hne _ (by decide)),
      if_neg (hne _ (by decide)), if_pos hdigit, hread]
  | str t =>
    intro level rest _
    have hread := readString_quote t rest
    rw [printAt, quote, List.cons_append, List.append_assoc, readValue, if_pos rfl]
    rw [List.singleton_append, hread]
    rfl
  | arr vs ih => exact readsBack_arr ih
  | obj ms ih => exact readsBack_obj ih

/-- A printed value is read back, also with space behind it. -/
theorem read?_print (v : Json) {space : Text} (hspace : space.all isSpace = true) :
    read? (print v ++ space) = some v := by
  have hrest : skipSpace space = [] :=
    List.dropWhile_eq_nil_iff.mpr (List.all_eq_true.mp hspace)
  have hends : EndsNumber space := by
    cases space with
    | nil => exact fun _ hd => by cases hd
    | cons c cs =>
      apply endsNumber_cons
      have hc : isSpace c = true := (List.all_eq_true.mp hspace) c List.mem_cons_self
      simp only [isSpace, Bool.or_eq_true, beq_iff_eq] at hc
      rcases hc with ((rfl | rfl) | rfl) | rfl <;> decide
  rw [read?, print, skipSpace_printAt, readsBack v 0 space hends]
  simp [hrest]

end Values

end SourceDoc.Json
