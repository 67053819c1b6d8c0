import Mathlib.Data.List.Sort
import Mathlib.Data.Char
import Mathlib.Order.Defs.LinearOrder
import WiseTraceLoom.Lib.Text

/-!
# JSON values and their texts

`Json` is a value as `json.loads` builds it: an object keeps its members in order, a later member
with the same key standing for the earlier one (`get?`), and a number is an integer or a
floating-point literal kept as its text.

`dumps` is `json.dumps(value, sort_keys=True)`: keys sorted at every depth, `", "` and `": "` as
separators, everything outside printable ASCII escaped.  `loads` is `json.loads`.  The result the
rest of the development uses is the round trip `loads_dumps`: reading a dumped value back gives the
value with its keys sorted, so in particular no member is lost (`loads_dumps_obj`).

What is written is printable ASCII (`isPrintable_of_mem_dumps`), so a text can be told apart from a
line break or a null character next to it; and it is the same whatever the order of the keys was
(`Permuted.dumps_eq`).

The parser is given as much fuel as the text has characters; `parseValue_render` shows that this is
enough by an induction over the value, with one mutual case for the rest of an array and one for
the rest of an object.
-/

set_option autoImplicit false

/-! ## Values -/

namespace Json

/-- The characters of number literals, `NaN` and `Infinity` among them. -/
def isNumChar (c : Char) : Bool := c.isDigit || "+-.eENaInfity".toList.contains c

/-- The value of decimal digits after an optional minus sign. -/
def signed : Str → ℤ
  | '-' :: ds => -(Nat.ofDigitChars 10 ds 0 : ℤ)
  | ds => (Nat.ofDigitChars 10 ds 0 : ℤ)

/-- An integer literal, if `t` is one: no plus sign and no leading zeros. -/
def toIntLit (t : Str) : Option ℤ :=
  if t = "-0".toList then some 0
  else if Text.ofInt (signed t) = t then some (signed t) else none

/-- The exponent of a floating-point literal, or nothing. -/
def isExponent (s : Str) : Bool :=
  match s with
  | [] => true
  | c :: s => (c == 'e' || c == 'E') &&
      let ds := match s with
        | '+' :: s => s
        | '-' :: s => s
        | s => s
      !ds.isEmpty && ds.all Char.isDigit

/-- What may follow the integer part of a floating-point literal. -/
def isFraction (s : Str) : Bool :=
  match s with
  | '.' :: s => !(s.takeWhile Char.isDigit).isEmpty && isExponent (s.dropWhile Char.isDigit)
  | s => isExponent s

/-- The characters a number literal can start with. -/
def isNumStart (c : Char) : Bool := c.isDigit || c == '-' || c == 'N' || c == 'I'

/-- Is `t` a floating-point literal of `json`?  These are the literals with a fraction or an
exponent and the three names of non-finite values.  (The conditions of the first line follow from
the shape; stated here, no later proof has to go back to it.) -/
def isFloat (t : Str) : Bool :=
  t.head?.any isNumStart && t.all isNumChar && (toIntLit t).isNone &&
    (t == "NaN".toList || t == "Infinity".toList || t == "-Infinity".toList ||
      let u := match t with
        | '-' :: u => u
        | u => u
      (toIntLit (u.takeWhile Char.isDigit)).isSome && isFraction (u.dropWhile Char.isDigit))

end Json

/-- A floating-point value, as its literal. -/
structure FloatLit where
  /-- The literal. -/
  text : Str
  /-- It is one. -/
  valid : Json.isFloat text = true
  deriving DecidableEq

/-- A JSON value. -/
inductive Json where
  | null
  | bool (b : Bool)
  | int (n : ℤ)
  | float (x : FloatLit)
  | str (s : Str)
  | arr (xs : List Json)
  | obj (members : List (Str × Json))

namespace Json

/-- The member `key` of an object: a later member with the same key stands for an earlier one. -/
def get? (key : Str) (members : List (Str × Json)) : Option Json :=
  (members.reverse.find? fun m ↦ m.1 = key).map Prod.snd

/-! ## Writing -/

/-- The hexadecimal digit of `n < 16`. -/
def hexDigit (n : ℕ) : Char := "0123456789abcdef".toList.getD n '0'

/-- Four hexadecimal digits. -/
def hex4 (n : ℕ) : Str :=
  [hexDigit (n / 4096 % 16), hexDigit (n / 256 % 16), hexDigit (n / 16 % 16), hexDigit (n % 16)]

/-- How `ensure_ascii` writes one character of a string. -/
def escape (c : Char) : Str :=
  if c = '"' then "\\\"".toList
  else if c = '\\' then "\\\\".toList
  else if c = '\n' then "\\n".toList
  else if c = '\r' then "\\r".toList
  else if c = '\t' then "\\t".toList
  else if c = '\x08' then "\\b".toList
  else if c = '\x0c' then "\\f".toList
  else if 32 ≤ c.toNat ∧ c.toNat ≤ 126 then [c]
  else if c.toNat < 0x10000 then '\\' :: 'u' :: hex4 c.toNat
  else
    -- above the basic plane: a surrogate pair
    '\\' :: 'u' :: (hex4 (0xd800 + (c.toNat - 0x10000) / 1024) ++
      '\\' :: 'u' :: hex4 (0xdc00 + (c.toNat - 0x10000) % 1024))

/-- The characters of a string, and the closing quote. -/
def quoteTail (s : Str) : Str := s.flatMap escape ++ ['"']

/-- A string literal. -/
def quote (s : Str) : Str := '"' :: quoteTail s

mutual

/-- The text of a value, members in the order in which the value has them. -/
def render : Json → Str
  | .null => "null".toList
  | .bool true => "true".toList
  | .bool false => "false".toList
  | .int n => Text.ofInt n
  | .float x => x.text
  | .str s => quote s
  | .arr [] => "[]".toList
  | .arr (x :: xs) => '[' :: (render x ++ renderItems xs)
  | .obj [] => "{}".toList
  | .obj ((k, v) :: ms) => '{' :: (quote k ++ ':' :: ' ' :: (render v ++ renderMembers ms))

/-- The rest of an array after one of its items. -/
def renderItems : List Json → Str
  | [] => [']']
  | x :: xs => ',' :: ' ' :: (render x ++ renderItems xs)

/-- The rest of an object after one of its members. -/
def renderMembers : List (Str × Json) → Str
  | [] => ['}']
  | (k, v) :: ms => ',' :: ' ' :: (quote k ++ ':' :: ' ' :: (render v ++ renderMembers ms))

end

/-- The order of keys: by code points. -/
def keyLe : Str → Str → Bool
  | [], _ => true
  | _ :: _, [] => false
  | c :: s, d :: t => c.toNat < d.toNat || c.toNat = d.toNat && keyLe s t

mutual

/-- The value with its keys sorted at every depth. -/
def sortKeys : Json → Json
  | .null => .null
  | .bool b => .bool b
  | .int n => .int n
  | .float x => .float x
  | .str s => .str s
  | .arr xs => .arr (sortItems xs)
  | .obj ms => .obj ((sortMembers ms).insertionSort fun a b ↦ keyLe a.1 b.1)

/-- `sortKeys` of every item. -/
def sortItems : List Json → List Json
  | [] => []
  | x :: xs => sortKeys x :: sortItems xs

/-- `sortKeys` of every member's value. -/
def sortMembers : List (Str × Json) → List (Str × Json)
  | [] => []
  | (k, v) :: ms => (k, sortKeys v) :: sortMembers ms

end

/-- `json.dumps(value, sort_keys=True)`. -/
def dumps (j : Json) : Str := render (sortKeys j)

/-! ## Reading -/

/-- The value of a hexadecimal digit. -/
def hexVal (c : Char) : Option ℕ :=
  let n := c.toNat
  if 48 ≤ n ∧ n ≤ 57 then some (n - 48)
  else if 97 ≤ n ∧ n ≤ 102 then some (n - 87)
  else if 65 ≤ n ∧ n ≤ 70 then some (n - 55)
  else none

/-- Four hexadecimal digits at the start of `s`. -/
def readHex4 : Str → Option (ℕ × Str)
  | a :: b :: c :: d :: s =>
    match hexVal a, hexVal b, hexVal c, hexVal d with
    | some a, some b, some c, some d => some (((a * 16 + b) * 16 + c) * 16 + d, s)
    | _, _, _, _ => none
  | _ => none

/-- The character a `\u` escape stands for.  A high surrogate needs a low one right after it; a
surrogate that stands alone is refused. -/
def readUnicode (s : Str) : Option (Char × Str) :=
  match readHex4 s with
  | none => none
  | some (n, s) =>
    if 0xd800 ≤ n ∧ n < 0xdc00 then
      match s with
      | '\\' :: 'u' :: s =>
        match readHex4 s with
        | none => none
        | some (m, s) =>
          if 0xdc00 ≤ m ∧ m < 0xe000 then
            some (Char.ofNat (0x10000 + (n - 0xd800) * 1024 + (m - 0xdc00)), s)
          else none
      | _ => none
    else if 0xdc00 ≤ n ∧ n < 0xe000 then none
    else some (Char.ofNat n, s)

/-- The character that follows a backslash in a two-character escape. -/
def unescape (c : Char) : Option Char :=
  if c = '"' ∨ c = '\\' ∨ c = '/' then some c
  else if c = 'n' then some '\n'
  else if c = 'r' then some '\r'
  else if c = 't' then some '\t'
  else if c = 'b' then some '\x08'
  else if c = 'f' then some '\x0c'
  else none

/-- One character of a string literal; control characters must be escaped. -/
def readChar : Str → Option (Char × Str)
  | [] => none
  | c :: s =>
    if c = '\\' then
      match s with
      | [] => none
      | d :: s => if d = 'u' then readUnicode s else (unescape d).map fun e ↦ (e, s)
    else if c.toNat < 32 then none
    else some (c, s)

/-- The rest of a string literal after its opening quote. -/
def parseString : ℕ → Str → Option (Str × Str)
  | 0, _ => none
  | n + 1, s =>
    match s with
    | '"' :: s => some ([], s)
    | s =>
      match readChar s with
      | none => none
      | some (c, s) => (parseString n s).map fun r ↦ (c :: r.1, r.2)

/-- The white space JSON allows between tokens. -/
def skipWs (s : Str) : Str := s.dropWhile fun c ↦ c == ' ' || c == '\t' || c == '\n' || c == '\r'

/-- The number a literal denotes. -/
def parseNumber (t : Str) : Option Json :=
  match toIntLit t with
  | some n => some (.int n)
  | none => if h : isFloat t = true then some (.float ⟨t, h⟩) else none

/-- The expected rest of a keyword. -/
def keyword (rest : Str) (j : Json) (s : Str) : Option (Json × Str) :=
  if rest.isPrefixOf s then some (j, s.drop rest.length) else none

/-- A string literal as the key of an object, with the colon after it. -/
def parseKey (n : ℕ) : Str → Option (Str × Str)
  | '"' :: s =>
    match parseString n s with
    | none => none
    | some (k, s) =>
      match skipWs s with
      | ':' :: s => some (k, skipWs s)
      | _ => none
  | _ => none

mutual

/-- A value at the start of the text. -/
def parseValue : ℕ → Str → Option (Json × Str)
  | 0, _ => none
  | _ + 1, [] => none
  | n + 1, c :: s =>
    if c = '"' then (parseString n s).map fun r ↦ (.str r.1, r.2)
    else if c = '[' then
      match skipWs s with
      | ']' :: s => some (.arr [], s)
      | s =>
        match parseValue n s with
        | none => none
        | some (x, s) => (parseItems n (skipWs s)).map fun r ↦ (.arr (x :: r.1), r.2)
    else if c = '{' then
      match skipWs s with
      | '}' :: s => some (.obj [], s)
      | s =>
        match parseKey n s with
        | none => none
        | some (k, s) =>
          match parseValue n s with
          | none => none
          | some (v, s) => (parseMembers n (skipWs s)).map fun r ↦ (.obj ((k, v) :: r.1), r.2)
    else if c = 'n' then keyword "ull".toList .null s
    else if c = 't' then keyword "rue".toList (.bool true) s
    else if c = 'f' then keyword "alse".toList (.bool false) s
    else (parseNumber ((c :: s).takeWhile isNumChar)).map fun j ↦ (j, (c :: s).dropWhile isNumChar)

/-- The rest of an array after one of its items. -/
def parseItems : ℕ → Str → Option (List Json × Str)
  | 0, _ => none
  | _ + 1, [] => none
  | n + 1, c :: s =>
    if c = ']' then some ([], s)
    else if c = ',' then
      match parseValue n (skipWs s) with
      | none => none
      | some (x, s) => (parseItems n (skipWs s)).map fun r ↦ (x :: r.1, r.2)
    else none

/-- The rest of an object after one of its members. -/
def parseMembers : ℕ → Str → Option (List (Str × Json) × Str)
  | 0, _ => none
  | _ + 1, [] => none
  | n + 1, c :: s =>
    if c = '}' then some ([], s)
    else if c = ',' then
      match parseKey n (skipWs s) with
      | none => none
      | some (k, s) =>
        match parseValue n s with
        | none => none
        | some (v, s) => (parseMembers n (skipWs s)).map fun r ↦ ((k, v) :: r.1, r.2)
    else none

end

/-- `json.loads(text)`; `none` where it raises. -/
def loads (s : Str) : Option Json :=
  match parseValue (s.length + 1) (skipWs s) with
  | none => none
  | some (j, s) => if skipWs s = [] then some j else none

/-! ## Reading back what was written -/

theorem hexVal_hexDigit : ∀ n < 16, hexVal (hexDigit n) = some n := by decide

theorem readHex4_hex4 {n : ℕ} (hn : n < 65536) (rest : Str) :
    readHex4 (hex4 n ++ rest) = some (n, rest) := by
  simp only [hex4, List.cons_append, List.nil_append, readHex4]
  rw [hexVal_hexDigit _ (by omega), hexVal_hexDigit _ (by omega), hexVal_hexDigit _ (by omega),
    hexVal_hexDigit _ (by omega)]
  simp only [Option.some.injEq, Prod.mk.injEq, and_true]
  omega

/-- A character is never a surrogate. -/
theorem not_surrogate (c : Char) :
    ¬ (0xd800 ≤ c.toNat ∧ c.toNat < 0xe000) ∧ c.toNat < 0x110000 := by
  have h : c.toNat < 0xd800 ∨ 0xdfff < c.toNat ∧ c.toNat < 0x110000 := c.valid
  omega

theorem readUnicode_hex4 {c : Char} (hc : c.toNat < 0x10000) (rest : Str) :
    readUnicode (hex4 c.toNat ++ rest) = some (c, rest) := by
  have hs := not_surrogate c
  simp only [readUnicode, readHex4_hex4 hc]
  rw [if_neg (by omega), if_neg (by omega), Char.ofNat_toNat]

theorem readUnicode_surrogates {hi lo : ℕ} (hhi : 0xd800 ≤ hi ∧ hi < 0xdc00)
    (hlo : 0xdc00 ≤ lo ∧ lo < 0xe000) (rest : Str) :
    readUnicode (hex4 hi ++ '\\' :: 'u' :: (hex4 lo ++ rest)) =
      some (Char.ofNat (0x10000 + (hi - 0xd800) * 1024 + (lo - 0xdc00)), rest) := by
  have hhi' : hi < 65536 := by omega
  have hlo' : lo < 65536 := by omega
  simp only [readUnicode, readHex4_hex4 hhi', readHex4_hex4 hlo']
  rw [if_pos hhi, if_pos hlo]

theorem readUnicode_pair {c : Char} (hc : ¬ c.toNat < 0x10000) (rest : Str) :
    readUnicode (hex4 (0xd800 + (c.toNat - 0x10000) / 1024) ++
      '\\' :: 'u' :: (hex4 (0xdc00 + (c.toNat - 0x10000) % 1024) ++ rest)) = some (c, rest) := by
  have hs := not_surrogate c
  rw [readUnicode_surrogates (by omega) (by omega)]
  have hval : 0x10000 + (0xd800 + (c.toNat - 0x10000) / 1024 - 0xd800) * 1024 +
      (0xdc00 + (c.toNat - 0x10000) % 1024 - 0xdc00) = c.toNat := by omega
  rw [hval, Char.ofNat_toNat]

/-- **What an escape is**: two printable characters, the character itself, four hexadecimal digits,
or a surrogate pair. -/
theorem escape_cases (c : Char) :
    (∃ d, escape c = ['\\', d] ∧ d ≠ 'u' ∧ unescape d = some c ∧ 32 ≤ d.toNat ∧ d.toNat ≤ 126) ∨
    (escape c = [c] ∧ c ≠ '"' ∧ c ≠ '\\' ∧ 32 ≤ c.toNat ∧ c.toNat ≤ 126) ∨
    (escape c = '\\' :: 'u' :: hex4 c.toNat ∧ c.toNat < 0x10000) ∨
    (escape c = '\\' :: 'u' :: (hex4 (0xd800 + (c.toNat - 0x10000) / 1024) ++
      '\\' :: 'u' :: hex4 (0xdc00 + (c.toNat - 0x10000) % 1024)) ∧ ¬ c.toNat < 0x10000) := by
  have hshort (d e : Char) (h : escape e = ['\\', d] ∧ d ≠ 'u' ∧ unescape d = some e ∧
      32 ≤ d.toNat ∧ d.toNat ≤ 126) (hc : c = e) : ∃ d, escape c = ['\\', d] ∧ d ≠ 'u' ∧
        unescape d = some c ∧ 32 ≤ d.toNat ∧ d.toNat ≤ 126 := ⟨d, hc ▸ h⟩
  by_cases h1 : c = '"'
  · exact .inl (hshort '"' _ ⟨rfl, by decide, rfl, by decide⟩ h1)
  by_cases h2 : c = '\\'
  · exact .inl (hshort '\\' _ ⟨rfl, by decide, rfl, by decide⟩ h2)
  by_cases h3 : c = '\n'
  · exact .inl (hshort 'n' _ ⟨rfl, by decide, rfl, by decide⟩ h3)
  by_cases h4 : c = '\r'
  · exact .inl (hshort 'r' _ ⟨rfl, by decide, rfl, by decide⟩ h4)
  by_cases h5 : c = '\t'
  · exact .inl (hshort 't' _ ⟨rfl, by decide, rfl, by decide⟩ h5)
  by_cases h6 : c = '\x08'
  · exact .inl (hshort 'b' _ ⟨rfl, by decide, rfl, by decide⟩ h6)
  by_cases h7 : c = '\x0c'
  · exact .inl (hshort 'f' _ ⟨rfl, by decide, rfl, by decide⟩ h7)
  rw [escape, if_neg h1, if_neg h2, if_neg h3, if_neg h4, if_neg h5, if_neg h6, if_neg h7]
  by_cases hplain : 32 ≤ c.toNat ∧ c.toNat ≤ 126
  · exact .inr (.inl ⟨if_pos hplain, h1, h2, hplain⟩)
  rw [if_neg hplain]
  by_cases hbasic : c.toNat < 0x10000
  · exact .inr (.inr (.inl ⟨if_pos hbasic, hbasic⟩))
  · exact .inr (.inr (.inr ⟨if_neg hbasic, hbasic⟩))

/-- An escaped character is read back. -/
theorem readChar_escape (c : Char) (rest : Str) : readChar (escape c ++ rest) = some (c, rest) := by
  rcases escape_cases c with ⟨d, he, hu, hd, -⟩ | ⟨he, -, hslash, hlow, -⟩ | ⟨he, hc⟩ | ⟨he, hc⟩
  · simp [he, readChar, hu, hd]
  · simp [he, readChar, hslash, hlow]
  · simpa [he, readChar] using readUnicode_hex4 hc rest
  · simpa [he, readChar] using readUnicode_pair hc rest

/-- No escape starts with the quote that would close the string. -/
theorem escape_head (c : Char) : ∃ d t, escape c = d :: t ∧ d ≠ '"' := by
  rcases escape_cases c with ⟨d, he, -⟩ | ⟨he, hquote, -⟩ | ⟨he, -⟩ | ⟨he, -⟩
  · exact ⟨_, _, he, by decide⟩
  · exact ⟨_, _, he, hquote⟩
  · exact ⟨_, _, he, by decide⟩
  · exact ⟨_, _, he, by decide⟩

theorem parseString_escape (n : ℕ) (c : Char) (t : Str) :
    parseString (n + 1) (escape c ++ t) = (parseString n t).map fun r ↦ (c :: r.1, r.2) := by
  have hread := readChar_escape c t
  obtain ⟨d, u, hd, hne⟩ := escape_head c
  rw [hd, List.cons_append] at hread ⊢
  rw [parseString]
  · rw [hread]
  · rintro v hv
    exact hne (List.cons.inj hv).1

theorem parseString_quoteTail (s : Str) (n : ℕ) (rest : Str) (hn : (quoteTail s).length ≤ n) :
    parseString n (quoteTail s ++ rest) = some (s, rest) := by
  induction s generalizing n with
  | nil =>
    obtain ⟨n, rfl⟩ : ∃ k, n = k + 1 := ⟨n - 1, by simp [quoteTail] at hn; omega⟩
    rfl
  | cons c s ih =>
    have hcons : quoteTail (c :: s) = escape c ++ quoteTail s := by simp [quoteTail]
    obtain ⟨d, u, hd, -⟩ := escape_head c
    rw [hcons, List.length_append, hd, List.length_cons] at hn
    obtain ⟨n, rfl⟩ : ∃ k, n = k + 1 := ⟨n - 1, by omega⟩
    rw [hcons, List.append_assoc, parseString_escape, ih n (by omega), Option.map_some]

/-- A text that does not go on with a number. -/
def NumStop (rest : Str) : Prop := ∀ c ∈ rest.head?, isNumChar c = false

/-- The value of a text of decimal digits with an optional minus sign. -/
theorem signed_ofInt (n : ℤ) : signed (Text.ofInt n) = n := by
  cases n with
  | ofNat n =>
    have hval : Nat.ofDigitChars 10 (Text.ofNat n) 0 = n := Nat.ofDigitChars_ten_toDigits
    rw [show Text.ofInt (Int.ofNat n) = Text.ofNat n from rfl, signed]
    · rw [hval]
      rfl
    · intro ds heq
      have := Text.isDigit_of_mem_ofNat (n := n) (c := '-') (by rw [heq]; simp)
      exact absurd this (by decide)
  | negSucc n =>
    have hval : Nat.ofDigitChars 10 (Text.ofNat (n + 1)) 0 = n + 1 := Nat.ofDigitChars_ten_toDigits
    rw [show Text.ofInt (Int.negSucc n) = '-' :: Text.ofNat (n + 1) from rfl, signed, hval]
    rfl

theorem toIntLit_ofInt (n : ℤ) : toIntLit (Text.ofInt n) = some n := by
  have hne : Text.ofInt n ≠ "-0".toList := by
    intro h
    cases n with
    | ofNat n =>
      have := Text.isDigit_of_mem_ofNat (n := n) (c := '-') (by
        rw [show Text.ofNat n = Text.ofInt (Int.ofNat n) from rfl, h]; simp)
      exact absurd this (by decide)
    | negSucc n =>
      have htail : Text.ofNat (n + 1) = Text.ofNat 0 := List.cons_injective h
      exact absurd (Text.ofNat_injective htail) (by omega)
  rw [toIntLit, if_neg hne, signed_ofInt, if_pos rfl]

theorem isNumChar_of_isDigit {c : Char} (h : c.isDigit = true) : isNumChar c = true := by
  simp [isNumChar, h]

/-- The shape all number literals share. -/
structure NumLit (t : Str) : Prop where
  head : t.head?.any isNumStart = true
  all : t.all isNumChar = true

theorem numLit_ofInt (n : ℤ) : NumLit (Text.ofInt n) := by
  have hdig (m : ℕ) : (Text.ofNat m).all isNumChar = true :=
    List.all_eq_true.mpr fun c hc ↦ isNumChar_of_isDigit (Text.isDigit_of_mem_ofNat hc)
  cases n with
  | ofNat n =>
    refine ⟨?_, hdig n⟩
    obtain ⟨c, t, ht⟩ := List.exists_cons_of_ne_nil (Nat.toDigits_ne_nil (n := n) (b := 10))
    have hc : c.isDigit = true := Text.isDigit_of_mem_ofNat (n := n) (by
      rw [Text.ofNat, ht]; simp)
    simp [Text.ofInt, Text.ofNat, ht, isNumStart, hc]
  | negSucc n =>
    exact ⟨rfl, by rw [Text.ofInt, List.all_cons, hdig]; rfl⟩

theorem numLit_float (x : FloatLit) : NumLit x.text := by
  have h := x.valid
  simp only [isFloat, Bool.and_eq_true] at h
  exact ⟨h.1.1.1, h.1.1.2⟩

theorem parseNumber_ofInt (n : ℤ) : parseNumber (Text.ofInt n) = some (.int n) := by
  rw [parseNumber, toIntLit_ofInt]

theorem parseNumber_float (x : FloatLit) : parseNumber x.text = some (.float x) := by
  have h := x.valid
  simp only [isFloat, Bool.and_eq_true, Option.isNone_iff_eq_none] at h
  rw [parseNumber, h.1.2]
  exact dif_pos x.valid

/-- A number literal begins with a character no other value begins with. -/
theorem NumLit.exists_cons {t : Str} (ht : NumLit t) :
    ∃ c u, t = c :: u ∧ ∀ d : Char, isNumStart d = false → c ≠ d := by
  cases t with
  | nil => exact absurd ht.head (by simp)
  | cons c u =>
    have hc : isNumStart c = true := by simpa using ht.head
    refine ⟨c, u, rfl, fun d hd hcd ↦ ?_⟩
    rw [hcd, hd] at hc
    exact absurd hc (by decide)

/-- A number literal is read to its end. -/
theorem parseValue_number {t rest : Str} {j : Json} (n : ℕ) (ht : NumLit t) (hrest : NumStop rest)
    (hj : parseNumber t = some j) : parseValue (n + 1) (t ++ rest) = some (j, rest) := by
  have hall : ∀ c ∈ t, isNumChar c = true := List.all_eq_true.mp ht.all
  have hstop : rest.takeWhile isNumChar = [] ∧ rest.dropWhile isNumChar = rest := by
    cases rest with
    | nil => exact ⟨rfl, rfl⟩
    | cons c rest =>
      have hc := hrest c rfl
      exact ⟨List.takeWhile_cons_of_neg (by simp [hc]), List.dropWhile_cons_of_neg (by simp [hc])⟩
  have htake : (t ++ rest).takeWhile isNumChar = t := by
    rw [List.takeWhile_append_of_pos hall, hstop.1, List.append_nil]
  have hdrop : (t ++ rest).dropWhile isNumChar = rest := by
    rw [List.dropWhile_append_of_pos hall, hstop.2]
  obtain ⟨c, u, rfl, hne⟩ := ht.exists_cons
  rw [List.cons_append] at htake hdrop ⊢
  rw [parseValue, if_neg (hne _ rfl), if_neg (hne _ rfl), if_neg (hne _ rfl), if_neg (hne _ rfl),
    if_neg (hne _ rfl), if_neg (hne _ rfl), htake, hdrop, hj, Option.map_some]

/-- What a text that is a value starts with: no white space, and no closing bracket. -/
def isValueHead (c : Char) : Bool :=
  !(c == ' ' || c == '\t' || c == '\n' || c == '\r') && c != ']'

theorem isValueHead_of_numLit {t : Str} (ht : NumLit t) :
    ∃ c u, t = c :: u ∧ isValueHead c = true := by
  obtain ⟨c, u, rfl, hne⟩ := ht.exists_cons
  refine ⟨c, u, rfl, ?_⟩
  simp [isValueHead, hne ' ' rfl, hne '\t' rfl, hne '\n' rfl, hne '\r' rfl, hne ']' rfl]

theorem render_head (j : Json) : ∃ c t, render j = c :: t ∧ isValueHead c = true := by
  cases j with
  | null => exact ⟨_, _, rfl, rfl⟩
  | bool b => cases b <;> exact ⟨_, _, rfl, rfl⟩
  | int n => rw [render]; exact isValueHead_of_numLit (numLit_ofInt n)
  | float x => rw [render]; exact isValueHead_of_numLit (numLit_float x)
  | str s => exact ⟨_, _, by rw [render, quote], rfl⟩
  | arr xs =>
    cases xs with
    | nil => exact ⟨_, _, by rw [render]; rfl, rfl⟩
    | cons x xs => exact ⟨_, _, by rw [render], rfl⟩
  | obj ms =>
    cases ms with
    | nil => exact ⟨_, _, by rw [render]; rfl, rfl⟩
    | cons m ms => obtain ⟨k, v⟩ := m; exact ⟨_, _, by rw [render], rfl⟩

theorem skipWs_cons {c : Char} {t : Str} (h : isValueHead c = true) : skipWs (c :: t) = c :: t := by
  rw [skipWs, List.dropWhile_cons_of_neg]
  rw [isValueHead, Bool.and_eq_true, Bool.not_eq_true'] at h
  simp [h.1]

theorem skipWs_render (j : Json) (rest : Str) : skipWs (render j ++ rest) = render j ++ rest := by
  obtain ⟨c, t, hc, hh⟩ := render_head j
  rw [hc, List.cons_append, skipWs_cons hh]

theorem skipWs_space (s : Str) : skipWs (' ' :: s) = skipWs s := rfl

theorem skipWs_quote (k rest : Str) : skipWs (quote k ++ rest) = quote k ++ rest := rfl

theorem parseKey_quote (k : Str) (n : ℕ) (j : Json) (rest : Str) (hn : (quoteTail k).length ≤ n) :
    parseKey n (quote k ++ ':' :: ' ' :: (render j ++ rest)) = some (k, render j ++ rest) := by
  have hcolon : skipWs (':' :: ' ' :: (render j ++ rest)) = ':' :: ' ' :: (render j ++ rest) := rfl
  rw [quote, List.cons_append, parseKey, parseString_quoteTail k n _ hn]
  simp only [hcolon, skipWs_space, skipWs_render]

theorem renderItems_head (xs : List Json) :
    ∃ c t, renderItems xs = c :: t ∧ (c = ']' ∨ c = ',') := by
  cases xs with
  | nil => exact ⟨_, _, rfl, Or.inl rfl⟩
  | cons x xs => exact ⟨_, _, by rw [renderItems], Or.inr rfl⟩

theorem renderMembers_head (ms : List (Str × Json)) :
    ∃ c t, renderMembers ms = c :: t ∧ (c = '}' ∨ c = ',') := by
  cases ms with
  | nil => exact ⟨_, _, rfl, Or.inl rfl⟩
  | cons m ms => obtain ⟨k, v⟩ := m; exact ⟨_, _, by rw [renderMembers], Or.inr rfl⟩

/-- The rest of an array stops a number and is not white space. -/
theorem renderItems_stop (xs : List Json) (rest : Str) :
    NumStop (renderItems xs ++ rest) ∧
      skipWs (renderItems xs ++ rest) = renderItems xs ++ rest := by
  obtain ⟨c, t, hc, rfl | rfl⟩ := renderItems_head xs <;>
    exact ⟨by rw [hc]; simp [NumStop, isNumChar], by rw [hc]; rfl⟩

/-- The rest of an object stops a number and is not white space. -/
theorem renderMembers_stop (ms : List (Str × Json)) (rest : Str) :
    NumStop (renderMembers ms ++ rest) ∧
      skipWs (renderMembers ms ++ rest) = renderMembers ms ++ rest := by
  obtain ⟨c, t, hc, rfl | rfl⟩ := renderMembers_head ms <;>
    exact ⟨by rw [hc]; simp [NumStop, isNumChar], by rw [hc]; rfl⟩

mutual

/-- **Reading back one value**, from the start of a text that goes on with something else. -/
theorem parseValue_render (j : Json) (n : ℕ) (rest : Str) (hn : (render j).length ≤ n)
    (hrest : NumStop rest) : parseValue n (render j ++ rest) = some (j, rest) := by
  obtain ⟨n, rfl⟩ : ∃ k, n = k + 1 := by
    obtain ⟨c, t, hc, -⟩ := render_head j
    rw [hc, List.length_cons] at hn
    exact ⟨n - 1, by omega⟩
  match j with
  | .null => rfl
  | .bool true => rfl
  | .bool false => rfl
  | .int m => rw [render]; exact parseValue_number n (numLit_ofInt m) hrest (parseNumber_ofInt m)
  | .float x => rw [render]; exact parseValue_number n (numLit_float x) hrest (parseNumber_float x)
  | .str s =>
    rw [render, quote, List.length_cons] at hn
    rw [render, quote, List.cons_append, parseValue, if_pos rfl,
      parseString_quoteTail s n rest (by omega), Option.map_some]
  | .arr [] => rfl
  | .arr (x :: xs) =>
    rw [render, List.length_cons, List.length_append] at hn
    have hx :=
      parseValue_render x n (renderItems xs ++ rest) (by omega) (renderItems_stop xs rest).1
    have hxs := parseItems_render xs n rest (by omega)
    obtain ⟨c, t, hc, hh⟩ := render_head x
    rw [render, List.cons_append, List.append_assoc, parseValue, if_neg (by decide), if_pos rfl,
      skipWs_render]
    split
    · rename_i s hs
      rw [hc, List.cons_append, List.cons.injEq] at hs
      rw [hs.1] at hh
      exact absurd hh (by decide)
    · rw [hx]
      simp only [(renderItems_stop xs rest).2, hxs, Option.map_some]
  | .obj [] => rfl
  | .obj ((k, v) :: ms) =>
    simp only [render, quote, List.length_cons, List.length_append] at hn
    have hk := parseKey_quote k n v (renderMembers ms ++ rest) (by omega)
    have hv := parseValue_render v n (renderMembers ms ++ rest) (by omega)
      (renderMembers_stop ms rest).1
    have hms := parseMembers_render ms n rest (by omega)
    simp only [render, List.cons_append, List.append_assoc]
    rw [parseValue, if_neg (by decide), if_neg (by decide), if_pos rfl, skipWs_quote]
    split
    · rename_i s hs
      rw [quote, List.cons_append, List.cons.injEq] at hs
      exact absurd hs.1 (by decide)
    · rw [hk]
      simp only [hv, (renderMembers_stop ms rest).2, hms, Option.map_some]

/-- Reading back the rest of an array. -/
theorem parseItems_render (xs : List Json) (n : ℕ) (rest : Str)
    (hn : (renderItems xs).length ≤ n) :
    parseItems n (renderItems xs ++ rest) = some (xs, rest) := by
  obtain ⟨n, rfl⟩ : ∃ k, n = k + 1 := by
    obtain ⟨c, t, hc, -⟩ := renderItems_head xs
    rw [hc, List.length_cons] at hn
    exact ⟨n - 1, by omega⟩
  match xs with
  | [] => rfl
  | x :: xs =>
    simp only [renderItems, List.length_cons, List.length_append] at hn
    have hx :=
      parseValue_render x n (renderItems xs ++ rest) (by omega) (renderItems_stop xs rest).1
    have hxs := parseItems_render xs n rest (by omega)
    simp only [renderItems, List.cons_append, List.append_assoc]
    rw [parseItems, if_neg (by decide), if_pos rfl, skipWs_space, skipWs_render, hx]
    simp only [(renderItems_stop xs rest).2, hxs, Option.map_some]

/-- Reading back the rest of an object. -/
theorem parseMembers_render (ms : List (Str × Json)) (n : ℕ) (rest : Str)
    (hn : (renderMembers ms).length ≤ n) :
    parseMembers n (renderMembers ms ++ rest) = some (ms, rest) := by
  obtain ⟨n, rfl⟩ : ∃ k, n = k + 1 := by
    obtain ⟨c, t, hc, -⟩ := renderMembers_head ms
    rw [hc, List.length_cons] at hn
    exact ⟨n - 1, by omega⟩
  match ms with
  | [] => rfl
  | (k, v) :: ms =>
    simp only [renderMembers, quote, List.length_cons, List.length_append] at hn
    have hk := parseKey_quote k n v (renderMembers ms ++ rest) (by omega)
    have hv := parseValue_render v n (renderMembers ms ++ rest) (by omega)
      (renderMembers_stop ms rest).1
    have hms := parseMembers_render ms n rest (by omega)
    simp only [renderMembers, List.cons_append, List.append_assoc]
    rw [parseMembers, if_neg (by decide), if_pos rfl, skipWs_space, skipWs_quote, hk]
    simp only [hv, (renderMembers_stop ms rest).2, hms, Option.map_some]

end

theorem loads_render (j : Json) : loads (render j) = some j := by
  have hstart : skipWs (render j) = render j := by simpa using skipWs_render j []
  have hparse := parseValue_render j ((render j).length + 1) [] (by omega) (by simp [NumStop])
  rw [List.append_nil] at hparse
  rw [loads, hstart, hparse]
  rfl

/-- **Round trip.**  What `dumps` writes, `loads` reads back, with sorted keys. -/
theorem loads_dumps (j : Json) : loads (dumps j) = some (sortKeys j) := loads_render (sortKeys j)

/-! ## Looking up a member after the round trip -/

theorem get?_eq_filter (key : Str) (ms : List (Str × Json)) :
    get? key ms = (ms.filter fun m ↦ m.1 = key).getLast?.map Prod.snd := by
  rw [get?, ← List.head?_filter, List.filter_reverse, List.head?_reverse]

theorem keyLe_refl (s : Str) : keyLe s s = true := by
  induction s with
  | nil => rfl
  | cons c s ih => simp [keyLe, ih]

/-- Sorting by key is stable, so the member that stands for a key stays the same. -/
theorem get?_insertionSort (key : Str) (ms : List (Str × Json)) :
    get? key (ms.insertionSort fun a b ↦ keyLe a.1 b.1) = get? key ms := by
  have hsame : (ms.filter fun m ↦ m.1 = key).Pairwise fun a b ↦ keyLe a.1 b.1 := by
    refine List.pairwise_iff_forall_sublist.mpr fun {a b} hab ↦ ?_
    have ha := hab.subset (List.mem_cons_self (a := a) (l := [b]))
    have hb := hab.subset (List.mem_cons_of_mem a (List.mem_singleton_self b))
    have ha' : a.1 = key := by simpa using (List.mem_filter.mp ha).2
    have hb' : b.1 = key := by simpa using (List.mem_filter.mp hb).2
    rw [ha', hb', keyLe_refl]
  have hsub := (List.sublist_insertionSort hsame List.filter_sublist).filter fun m ↦ m.1 = key
  simp only [List.filter_filter, Bool.and_self] at hsub
  have hlen := ((List.perm_insertionSort (fun a b : Str × Json ↦ keyLe a.1 b.1) ms).filter
    fun m ↦ m.1 = key).length_eq
  rw [get?_eq_filter, get?_eq_filter, hsub.eq_of_length hlen.symm]

/-- Changing the values leaves the members where they are. -/
theorem get?_map (f : Str → Json → Json) (key : Str) (ms : List (Str × Json)) :
    get? key (ms.map fun m ↦ (m.1, f m.1 m.2)) = (get? key ms).map (f key) := by
  rw [get?_eq_filter, get?_eq_filter, List.filter_map, List.getLast?_map, Option.map_map,
    Option.map_map]
  cases hlast : (ms.filter fun m ↦ m.1 = key).getLast? with
  | none => simpa [Function.comp_def] using hlast
  | some m =>
    have hkey : m.1 = key := by simpa using (List.mem_filter.mp (List.mem_of_getLast? hlast)).2
    simp [Function.comp_def, hlast, hkey]

theorem get?_append (key : Str) (ms ms' : List (Str × Json)) :
    get? key (ms ++ ms') = (get? key ms').or (get? key ms) := by
  rw [get?, List.reverse_append, List.find?_append, Option.map_or]
  rfl

theorem get?_singleton (key k : Str) (value : Json) :
    get? key [(k, value)] = if k = key then some value else none := by
  by_cases hk : k = key <;> simp [get?, hk]

/-- Members are kept or dropped by their key. -/
theorem get?_filter_key (p : Str → Bool) (key : Str) (ms : List (Str × Json)) :
    get? key (ms.filter fun m ↦ p m.1) = if p key then get? key ms else none := by
  rw [get?_eq_filter, get?_eq_filter, List.filter_filter]
  have hkey : (ms.filter fun m ↦ decide (m.1 = key) && p m.1) =
      ms.filter fun m ↦ decide (m.1 = key) && p key := by
    refine List.filter_congr fun m _ ↦ ?_
    by_cases hm : m.1 = key <;> simp [hm]
  rw [hkey]
  cases p key <;> simp

theorem sortMembers_eq_map (ms : List (Str × Json)) :
    sortMembers ms = ms.map fun m ↦ (m.1, sortKeys m.2) := by
  induction ms with
  | nil => rfl
  | cons m ms ih => rw [sortMembers, ih, List.map_cons]

theorem get?_sortMembers (key : Str) (ms : List (Str × Json)) :
    get? key (sortMembers ms) = (get? key ms).map sortKeys := by
  rw [sortMembers_eq_map, get?_map fun _ ↦ sortKeys]

/-- **No member is lost**: the object read back has the members of the one written. -/
theorem loads_dumps_obj (ms : List (Str × Json)) :
    ∃ ms', loads (dumps (.obj ms)) = some (.obj ms') ∧
      ∀ key, get? key ms' = (get? key ms).map sortKeys := by
  refine ⟨_, by rw [loads_dumps, sortKeys], fun key ↦ ?_⟩
  rw [get?_insertionSort, get?_sortMembers]

/-! ## The order of the keys does not matter -/

/-- The same value but for the order of keys, at any depth. -/
inductive Permuted : Json → Json → Prop
  | refl (j : Json) : Permuted j j
  | trans {j₁ j₂ j₃ : Json} (h : Permuted j₁ j₂) (h' : Permuted j₂ j₃) : Permuted j₁ j₃
  /-- The keys of an object, each of which it has once, in another order. -/
  | members {ms ms' : List (Str × Json)} (hkeys : (ms.map Prod.fst).Nodup) (h : ms.Perm ms') :
      Permuted (.obj ms) (.obj ms')
  | item {xs ys : List Json} {j j' : Json} (h : Permuted j j') :
      Permuted (.arr (xs ++ j :: ys)) (.arr (xs ++ j' :: ys))
  | value {ms ns : List (Str × Json)} {key : Str} {j j' : Json} (h : Permuted j j') :
      Permuted (.obj (ms ++ (key, j) :: ns)) (.obj (ms ++ (key, j') :: ns))

theorem keyLe_trans {s t u : Str} (h : keyLe s t = true) (h' : keyLe t u = true) :
    keyLe s u = true := by
  induction s generalizing t u with
  | nil => rfl
  | cons c s ih =>
    cases t with
    | nil => cases h
    | cons d t =>
      cases u with
      | nil => cases h'
      | cons e u =>
        simp only [keyLe, Bool.or_eq_true, Bool.and_eq_true, decide_eq_true_eq] at h h' ⊢
        rcases h with h | ⟨h, hst⟩
        · omega
        · rcases h' with h' | ⟨h', htu⟩
          · omega
          · exact .inr ⟨h.trans h', ih hst htu⟩

theorem keyLe_total (s t : Str) : keyLe s t = true ∨ keyLe t s = true := by
  induction s generalizing t with
  | nil => exact .inl rfl
  | cons c s ih =>
    cases t with
    | nil => exact .inr rfl
    | cons d t =>
      simp only [keyLe, Bool.or_eq_true, Bool.and_eq_true, decide_eq_true_eq]
      rcases Nat.lt_trichotomy c.toNat d.toNat with h | h | h
      · exact .inl (.inl h)
      · exact (ih t).imp (fun hst ↦ .inr ⟨h, hst⟩) fun hts ↦ .inr ⟨h.symm, hts⟩
      · exact .inr (.inl h)

theorem keyLe_antisymm {s t : Str} (h : keyLe s t = true) (h' : keyLe t s = true) : s = t := by
  induction s generalizing t with
  | nil =>
    cases t with
    | nil => rfl
    | cons d t => cases h'
  | cons c s ih =>
    cases t with
    | nil => cases h
    | cons d t =>
      simp only [keyLe, Bool.or_eq_true, Bool.and_eq_true, decide_eq_true_eq] at h h'
      rcases h with h | ⟨hcd, hst⟩
      · omega
      · obtain ⟨-, hts⟩ := h'.resolve_left (by omega)
        rw [Char.toNat_inj.mp hcd, ih hst hts]

/-- Members with different keys have one sorted order. -/
theorem insertionSort_eq_of_perm {ms ms' : List (Str × Json)} (hkeys : (ms.map Prod.fst).Nodup)
    (h : ms.Perm ms') : ms.insertionSort (fun a b ↦ keyLe a.1 b.1) =
      ms'.insertionSort fun a b ↦ keyLe a.1 b.1 := by
  let le (a b : Str × Json) : Prop := keyLe a.1 b.1 = true
  have htotal : Std.Total le := ⟨fun a b ↦ keyLe_total a.1 b.1⟩
  have htrans : IsTrans (Str × Json) le := ⟨fun _ _ _ ↦ keyLe_trans⟩
  have hsorted (l : List (Str × Json)) : (l.insertionSort le).Pairwise le :=
    List.pairwise_insertionSort le l
  have hperm (l : List (Str × Json)) : (l.insertionSort le).Perm l := List.perm_insertionSort le l
  refine List.Perm.eq_of_pairwise (fun a b ha hb hab hba ↦ ?_) (hsorted ms) (hsorted ms')
    ((hperm ms).trans (h.trans (hperm ms').symm))
  refine List.inj_on_of_nodup_map hkeys ((hperm ms).mem_iff.mp ha) ?_ (keyLe_antisymm hab hba)
  exact h.mem_iff.mpr ((hperm ms').mem_iff.mp hb)

/-- **Sorting forgets the order of the keys.** -/
theorem Permuted.sortKeys_eq {j j' : Json} (h : Permuted j j') : sortKeys j = sortKeys j' := by
  have hitems (xs ys : List Json) : sortItems (xs ++ ys) = sortItems xs ++ sortItems ys := by
    induction xs with
    | nil => rfl
    | cons x xs ih => rw [List.cons_append, sortItems, ih, sortItems, List.cons_append]
  induction h with
  | refl j => rfl
  | trans h h' ih ih' => exact ih.trans ih'
  | members hkeys h =>
    have hfst : (Prod.fst ∘ fun m : Str × Json ↦ (m.1, sortKeys m.2)) = Prod.fst := rfl
    rw [sortKeys, sortKeys, sortMembers_eq_map, sortMembers_eq_map]
    refine congrArg Json.obj (insertionSort_eq_of_perm ?_ (h.map _))
    rwa [List.map_map, hfst]
  | item h ih => rw [sortKeys, sortKeys, hitems, hitems, sortItems, sortItems, ih]
  | value h ih =>
    simp only [sortKeys, sortMembers_eq_map, List.map_append, List.map_cons, ih]

theorem Permuted.dumps_eq {j j' : Json} (h : Permuted j j') : dumps j = dumps j' :=
  congrArg render h.sortKeys_eq

/-! ## The characters of a text -/

/-- Printable ASCII. -/
def IsPrintable (c : Char) : Prop := 32 ≤ c.toNat ∧ c.toNat ≤ 126

instance (c : Char) : Decidable (IsPrintable c) := inferInstanceAs (Decidable (_ ∧ _))

theorem isPrintable_of_isNumChar {c : Char} (h : isNumChar c = true) : IsPrintable c := by
  rw [isNumChar, Bool.or_eq_true] at h
  rcases h with hdigit | hmem
  · simp only [Char.isDigit, Bool.and_eq_true, decide_eq_true_eq] at hdigit
    have hlow : 48 ≤ c.val.toNat := hdigit.1
    have hhigh : c.val.toNat ≤ 57 := hdigit.2
    exact ⟨by simp only [Char.toNat]; omega, by simp only [Char.toNat]; omega⟩
  · have hall : ∀ d ∈ "+-.eENaInfity".toList, IsPrintable d := by decide
    exact hall c (List.contains_iff_mem.mp hmem)

theorem isPrintable_hexDigit (n : ℕ) : IsPrintable (hexDigit n) := by
  have hall : ∀ k < 16, IsPrintable (hexDigit k) := by decide
  by_cases hn : n < 16
  · exact hall n hn
  · have hnone : "0123456789abcdef".toList[n]? = none :=
      List.getElem?_eq_none (Nat.not_lt.mp hn)
    rw [hexDigit, List.getD_eq_getElem?_getD, hnone]
    decide

theorem isPrintable_of_mem_hex4 {n : ℕ} {c : Char} (h : c ∈ hex4 n) : IsPrintable c := by
  simp only [hex4, List.mem_cons, List.not_mem_nil, or_false] at h
  rcases h with rfl | rfl | rfl | rfl <;> exact isPrintable_hexDigit _

/-- `ensure_ascii`: an escape is printable. -/
theorem isPrintable_of_mem_escape {c d : Char} (h : d ∈ escape c) : IsPrintable d := by
  have hslash : IsPrintable '\\' := by decide
  have hu : IsPrintable 'u' := by decide
  rcases escape_cases c with ⟨e, he, -, -, hprintable⟩ | ⟨he, -, -, hprintable⟩ | ⟨he, -⟩ | ⟨he, -⟩
  · simp only [he, List.mem_cons, List.not_mem_nil, or_false] at h
    rcases h with rfl | rfl
    · exact hslash
    · exact hprintable
  · rw [he, List.mem_singleton] at h
    exact h ▸ hprintable
  · simp only [he, List.mem_cons] at h
    rcases h with rfl | rfl | h
    · exact hslash
    · exact hu
    · exact isPrintable_of_mem_hex4 h
  · simp only [he, List.mem_cons, List.mem_append] at h
    rcases h with rfl | rfl | h | rfl | rfl | h
    · exact hslash
    · exact hu
    · exact isPrintable_of_mem_hex4 h
    · exact hslash
    · exact hu
    · exact isPrintable_of_mem_hex4 h

theorem isPrintable_of_mem_quote {s : Str} {c : Char} (h : c ∈ quote s) : IsPrintable c := by
  simp only [quote, quoteTail, List.mem_cons, List.mem_append, List.mem_flatMap,
    List.not_mem_nil, or_false] at h
  rcases h with rfl | ⟨d, -, hd⟩ | rfl
  · decide
  · exact isPrintable_of_mem_escape hd
  · decide

mutual

/-- **The text of a value is printable ASCII.** -/
theorem isPrintable_of_mem_render {c : Char} : ∀ (j : Json), c ∈ render j → IsPrintable c
  | .null, h => (by decide : ∀ d ∈ "null".toList, IsPrintable d) c h
  | .bool true, h => (by decide : ∀ d ∈ "true".toList, IsPrintable d) c h
  | .bool false, h => (by decide : ∀ d ∈ "false".toList, IsPrintable d) c h
  | .int n, h => isPrintable_of_isNumChar (List.all_eq_true.mp (numLit_ofInt n).all c h)
  | .float x, h => isPrintable_of_isNumChar (List.all_eq_true.mp (numLit_float x).all c h)
  | .str s, h => isPrintable_of_mem_quote h
  | .arr [], h => (by decide : ∀ d ∈ "[]".toList, IsPrintable d) c h
  | .arr (x :: xs), h => by
    rw [render, List.mem_cons, List.mem_append] at h
    rcases h with rfl | h | h
    · decide
    · exact isPrintable_of_mem_render x h
    · exact isPrintable_of_mem_renderItems xs h
  | .obj [], h => (by decide : ∀ d ∈ "{}".toList, IsPrintable d) c h
  | .obj ((k, v) :: ms), h => by
    rw [render, List.mem_cons, List.mem_append, List.mem_cons, List.mem_cons, List.mem_append] at h
    rcases h with rfl | h | rfl | rfl | h | h
    · decide
    · exact isPrintable_of_mem_quote h
    iterate 2 decide
    · exact isPrintable_of_mem_render v h
    · exact isPrintable_of_mem_renderMembers ms h

theorem isPrintable_of_mem_renderItems {c : Char} :
    ∀ (xs : List Json), c ∈ renderItems xs → IsPrintable c
  | [], h => (by decide : ∀ d ∈ "]".toList, IsPrintable d) c h
  | x :: xs, h => by
    rw [renderItems, List.mem_cons, List.mem_cons, List.mem_append] at h
    rcases h with rfl | rfl | h | h
    iterate 2 decide
    · exact isPrintable_of_mem_render x h
    · exact isPrintable_of_mem_renderItems xs h

theorem isPrintable_of_mem_renderMembers {c : Char} :
    ∀ (ms : List (Str × Json)), c ∈ renderMembers ms → IsPrintable c
  | [], h => (by decide : ∀ d ∈ "\x7d".toList, IsPrintable d) c h
  | (k, v) :: ms, h => by
    rw [renderMembers, List.mem_cons, List.mem_cons, List.mem_append, List.mem_cons, List.mem_cons,
      List.mem_append] at h
    rcases h with rfl | rfl | h | rfl | rfl | h | h
    iterate 2 decide
    · exact isPrintable_of_mem_quote h
    iterate 2 decide
    · exact isPrintable_of_mem_render v h
    · exact isPrintable_of_mem_renderMembers ms h

end

theorem isPrintable_of_mem_dumps {j : Json} {c : Char} (h : c ∈ dumps j) : IsPrintable c :=
  isPrintable_of_mem_render (sortKeys j) h

end Json
