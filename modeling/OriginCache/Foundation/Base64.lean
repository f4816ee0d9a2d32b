import Mathlib.Tactic.Common

/-! Base64 in the URL-safe alphabet and without padding. The decoder refuses a text
with a digit left over or with bits that no byte takes. -/

namespace OriginCache.Foundation.Base64

def alphabet : List Char :=
  ['A', 'B', 'C', 'D', 'E', 'F', 'G', 'H', 'I', 'J', 'K', 'L', 'M', 'N', 'O', 'P', 'Q', 'R', 'S', 'T', 'U', 'V',
    'W', 'X', 'Y', 'Z', 'a', 'b', 'c', 'd', 'e', 'f', 'g', 'h', 'i', 'j', 'k', 'l', 'm', 'n', 'o', 'p', 'q', 'r',
    's', 't', 'u', 'v', 'w', 'x', 'y', 'z', '0', '1', '2', '3', '4', '5', '6', '7', '8', '9', '-', '_']

def digit (n : Nat) : Char := alphabet.getD n 'A'

def value (c : Char) : Option Nat := alphabet.idxOf? c

theorem value_digit (n : Nat) (small : n < 64) : value (digit n) = some n := by
  have all : ∀ m, m < 64 → value (digit m) = some m := by decide
  exact all n small

def encode : List UInt8 → List Char
  | a :: b :: c :: rest =>
      let n := a.toNat * 65536 + b.toNat * 256 + c.toNat
      digit (n / 262144) :: digit (n / 4096 % 64) :: digit (n / 64 % 64) :: digit (n % 64) :: encode rest
  | [a, b] =>
      let n := a.toNat * 1024 + b.toNat * 4
      [digit (n / 4096), digit (n / 64 % 64), digit (n % 64)]
  | [a] => [digit (a.toNat * 16 / 64), digit (a.toNat * 16 % 64)]
  | [] => []

def decode : List Char → Option (List UInt8)
  | w :: x :: y :: z :: rest => do
      let n := (← value w) * 262144 + (← value x) * 4096 + (← value y) * 64 + (← value z)
      let bytes ← decode rest
      some (UInt8.ofNat (n / 65536) :: UInt8.ofNat (n / 256 % 256) :: UInt8.ofNat (n % 256) :: bytes)
  | [w, x, y] => do
      let n := (← value w) * 4096 + (← value x) * 64 + (← value y)
      if n % 4 = 0 then some [UInt8.ofNat (n / 1024), UInt8.ofNat (n / 4 % 256)] else none
  | [w, x] => do
      let n := (← value w) * 64 + (← value x)
      if n % 16 = 0 then some [UInt8.ofNat (n / 16)] else none
  | [_] => none
  | [] => some []

theorem byte_of_toNat (a : UInt8) (n : Nat) (same : n = a.toNat) : UInt8.ofNat n = a := by
  rw [same]
  exact UInt8.ofNat_toNat

theorem decode_encode (bytes : List UInt8) : decode (encode bytes) = some bytes := by
  induction bytes using encode.induct with
  | case1 a b c rest ih =>
    have boundA := a.toNat_lt
    have boundB := b.toNat_lt
    have boundC := c.toNat_lt
    obtain ⟨n, named⟩ : ∃ n, n = a.toNat * 65536 + b.toNat * 256 + c.toNat := ⟨_, rfl⟩
    have whole : n / 262144 * 262144 + n / 4096 % 64 * 4096 + n / 64 % 64 * 64 + n % 64 = n := by omega
    have digits : encode (a :: b :: c :: rest) =
        digit (n / 262144) :: digit (n / 4096 % 64) :: digit (n / 64 % 64) :: digit (n % 64) :: encode rest := by
      rw [named]
      rfl
    simp only [digits, decode, value_digit _ (show n / 262144 < 64 by omega), value_digit _ (Nat.mod_lt _ (by decide)),
      Option.bind_eq_bind, Option.bind_some, ih, whole]
    rw [byte_of_toNat a (n / 65536) (by omega), byte_of_toNat b (n / 256 % 256) (by omega),
      byte_of_toNat c (n % 256) (by omega)]
  | case2 a b =>
    have boundA := a.toNat_lt
    have boundB := b.toNat_lt
    obtain ⟨n, named⟩ : ∃ n, n = a.toNat * 1024 + b.toNat * 4 := ⟨_, rfl⟩
    have whole : n / 4096 * 4096 + n / 64 % 64 * 64 + n % 64 = n := by omega
    have digits : encode [a, b] = [digit (n / 4096), digit (n / 64 % 64), digit (n % 64)] := by
      rw [named]
      rfl
    simp only [digits, decode, value_digit _ (show n / 4096 < 64 by omega), value_digit _ (Nat.mod_lt _ (by decide)),
      Option.bind_eq_bind, Option.bind_some, whole, if_pos (show n % 4 = 0 by omega)]
    rw [byte_of_toNat a (n / 1024) (by omega), byte_of_toNat b (n / 4 % 256) (by omega)]
  | case3 a =>
    have bound := a.toNat_lt
    have whole : a.toNat * 16 / 64 * 64 + a.toNat * 16 % 64 = a.toNat * 16 := by omega
    simp only [encode, decode, value_digit _ (show a.toNat * 16 / 64 < 64 by omega),
      value_digit _ (Nat.mod_lt _ (by decide)), Option.bind_eq_bind, Option.bind_some, whole,
      if_pos (show a.toNat * 16 % 16 = 0 by omega)]
    rw [byte_of_toNat a (a.toNat * 16 / 16) (by omega)]
  | case4 => rfl

end OriginCache.Foundation.Base64
