import WiseTraceLoom.Lib.Text

/-!
# SHA-256

`Sha256.hexdigest` is `hashlib.sha256(text.encode("utf-8")).hexdigest()`, computed with natural
numbers below `2 ^ 32`.  It is here so that the model can be run; what the proofs know about it is
only that a digest has 64 characters, all of them among `0`–`9` and `a`–`f` (`length_hexdigest`,
`isHex_of_mem_hexdigest`).  That two given texts have different digests is always a hypothesis.
-/

set_option autoImplicit false

namespace Sha256

/-! ## The compression function -/

/-- The round constants. -/
def k : List ℕ := [
  0x428a2f98, 0x71374491, 0xb5c0fbcf, 0xe9b5dba5, 0x3956c25b, 0x59f111f1, 0x923f82a4, 0xab1c5ed5,
  0xd807aa98, 0x12835b01, 0x243185be, 0x550c7dc3, 0x72be5d74, 0x80deb1fe, 0x9bdc06a7, 0xc19bf174,
  0xe49b69c1, 0xefbe4786, 0x0fc19dc6, 0x240ca1cc, 0x2de92c6f, 0x4a7484aa, 0x5cb0a9dc, 0x76f988da,
  0x983e5152, 0xa831c66d, 0xb00327c8, 0xbf597fc7, 0xc6e00bf3, 0xd5a79147, 0x06ca6351, 0x14292967,
  0x27b70a85, 0x2e1b2138, 0x4d2c6dfc, 0x53380d13, 0x650a7354, 0x766a0abb, 0x81c2c92e, 0x92722c85,
  0xa2bfe8a1, 0xa81a664b, 0xc24b8b70, 0xc76c51a3, 0xd192e819, 0xd6990624, 0xf40e3585, 0x106aa070,
  0x19a4c116, 0x1e376c08, 0x2748774c, 0x34b0bcb5, 0x391c0cb3, 0x4ed8aa4a, 0x5b9cca4f, 0x682e6ff3,
  0x748f82ee, 0x78a5636f, 0x84c87814, 0x8cc70208, 0x90befffa, 0xa4506ceb, 0xbef9a3f7, 0xc67178f2]

/-- Rotation to the right. -/
def rotr (n x : ℕ) : ℕ := (x >>> n) ||| ((x <<< (32 - n)) % 4294967296)

/-- Addition of words. -/
def add (x y : ℕ) : ℕ := (x + y) % 4294967296

/-- The eight working variables. -/
structure State where
  /-- Working variable. -/
  a : ℕ
  /-- Working variable. -/
  b : ℕ
  /-- Working variable. -/
  c : ℕ
  /-- Working variable. -/
  d : ℕ
  /-- Working variable. -/
  e : ℕ
  /-- Working variable. -/
  f : ℕ
  /-- Working variable. -/
  g : ℕ
  /-- Working variable. -/
  h : ℕ

/-- The message schedule, newest word first, extended by `n` words. -/
def extend : ℕ → List ℕ → List ℕ
  | 0, w => w
  | n + 1, w =>
    let x := w.getD 1 0
    let y := w.getD 14 0
    let s1 := rotr 17 x ^^^ rotr 19 x ^^^ (x >>> 10)
    let s0 := rotr 7 y ^^^ rotr 18 y ^^^ (y >>> 3)
    extend n (add (add s1 (w.getD 6 0)) (add s0 (w.getD 15 0)) :: w)

/-- One round. -/
def round (s : State) (k w : ℕ) : State :=
  let s1 := rotr 6 s.e ^^^ rotr 11 s.e ^^^ rotr 25 s.e
  let ch := (s.e &&& s.f) ^^^ ((4294967295 - s.e) &&& s.g)
  let t1 := add (add (add s.h s1) (add ch k)) w
  let s0 := rotr 2 s.a ^^^ rotr 13 s.a ^^^ rotr 22 s.a
  let maj := (s.a &&& s.b) ^^^ (s.a &&& s.c) ^^^ (s.b &&& s.c)
  ⟨add t1 (add s0 maj), s.a, s.b, s.c, add s.d t1, s.e, s.f, s.g⟩

/-- The rounds for the words of a schedule. -/
def rounds : List ℕ → List ℕ → State → State
  | k :: ks, w :: ws, s => rounds ks ws (round s k w)
  | _, _, s => s

/-- The state after one block of 16 words. -/
def compress (s : State) (block : List ℕ) : State :=
  let t := rounds k (extend 48 block.reverse).reverse s
  ⟨add s.a t.a, add s.b t.b, add s.c t.c, add s.d t.d, add s.e t.e, add s.f t.f, add s.g t.g,
    add s.h t.h⟩

/-- The state after `n` blocks. -/
def blocks : ℕ → List ℕ → State → State
  | 0, _, s => s
  | n + 1, ws, s => blocks n (ws.drop 16) (compress s (ws.take 16))

/-! ## The digest of a text -/

/-- The UTF-8 bytes of a character. -/
def utf8 (c : Char) : List ℕ :=
  let n := c.toNat
  if n < 0x80 then [n]
  else if n < 0x800 then [0xc0 + n / 64, 0x80 + n % 64]
  else if n < 0x10000 then [0xe0 + n / 4096, 0x80 + n / 64 % 64, 0x80 + n % 64]
  else [0xf0 + n / 262144, 0x80 + n / 4096 % 64, 0x80 + n / 64 % 64, 0x80 + n % 64]

/-- The message, a one bit, zeros, and the length in bits as eight bytes. -/
def pad (m : List ℕ) : List ℕ :=
  m ++ 128 :: List.replicate ((119 - m.length % 64) % 64) 0 ++
    [56, 48, 40, 32, 24, 16, 8, 0].map fun i ↦ ((8 * m.length) >>> i) % 256

/-- The big-endian words of a list of bytes. -/
def words : List ℕ → List ℕ
  | a :: b :: c :: d :: r => (((a * 256 + b) * 256 + c) * 256 + d) :: words r
  | _ => []

/-- A digit of a digest. -/
def hexDigit (n : ℕ) : Char := "0123456789abcdef".toList.getD n '0'

/-- The eight digits of a word. -/
def hexWord (n : ℕ) : Str :=
  [28, 24, 20, 16, 12, 8, 4, 0].map fun i ↦ hexDigit ((n >>> i) % 16)

/-- `hashlib.sha256(text.encode("utf-8")).hexdigest()`. -/
def hexdigest (text : Str) : Str :=
  let ws := words (pad (text.flatMap utf8))
  let s := blocks (ws.length / 16) ws ⟨0x6a09e667, 0xbb67ae85, 0x3c6ef372, 0xa54ff53a, 0x510e527f,
    0x9b05688c, 0x1f83d9ab, 0x5be0cd19⟩
  [s.a, s.b, s.c, s.d, s.e, s.f, s.g, s.h].flatMap hexWord

set_option maxRecDepth 20000 in
example : hexdigest "abc".toList =
    "ba7816bf8f01cfea414140de5dae2223b00361a396177a9cb410ff61f20015ad".toList := by
  decide +kernel

/-- The characters of a digest. -/
def isHex (c : Char) : Bool := "0123456789abcdef".toList.contains c

theorem isHex_hexDigit (n : ℕ) : isHex (hexDigit n) = true := by
  by_cases hn : n < 16
  · have hall : ∀ n < 16, isHex (hexDigit n) = true := by decide
    exact hall n hn
  · rw [hexDigit, List.getD_eq_getElem?_getD, List.getElem?_eq_none (by simpa using hn)]
    rfl

@[simp] theorem length_hexdigest (text : Str) : (hexdigest text).length = 64 := rfl

theorem isHex_of_mem_hexdigest {text : Str} {c : Char} (h : c ∈ hexdigest text) :
    isHex c = true := by
  obtain ⟨w, -, hc⟩ := List.mem_flatMap.mp h
  obtain ⟨i, -, rfl⟩ := List.mem_map.mp hc
  exact isHex_hexDigit _

theorem hexdigest_ne_nil (text : Str) : hexdigest text ≠ [] := by
  intro h
  have := length_hexdigest text
  simp [h] at this

theorem newline_not_mem_hexdigest (text : Str) : '\n' ∉ hexdigest text := fun h ↦
  absurd (isHex_of_mem_hexdigest h) (by decide)

end Sha256
