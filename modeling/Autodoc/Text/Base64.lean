namespace Autodoc.Text.Base64

def alphabet : List Char := "ABCDEFGHIJKLMNOPQRSTUVWXYZabcdefghijklmnopqrstuvwxyz0123456789+/".toList

def digit (n : Nat) : Char := alphabet[n % 64]?.getD 'A'

def encode : List UInt8 → List Char
  | [] => []
  | [a] =>
    let n := a.toNat * 16
    [digit (n / 64), digit n, '=', '=']
  | [a, b] =>
    let n := (a.toNat * 256 + b.toNat) * 4
    [digit (n / 4096), digit (n / 64), digit n, '=']
  | a :: b :: c :: r =>
    let n := (a.toNat * 256 + b.toNat) * 256 + c.toNat
    digit (n / 262144) :: digit (n / 4096) :: digit (n / 64) :: digit n :: encode r

def value? (c : Char) : Option Nat := alphabet.findIdx? (· == c)

/-- The bytes of a text; nothing if it is no base 64 text. -/
def decode? : List Char → Option (List UInt8)
  | [] => some []
  | [a, b, '=', '='] => do
    let n := (← value? a) * 64 + (← value? b)
    if n % 16 = 0 then some [(n / 16).toUInt8] else none
  | [a, b, c, '='] => do
    let n := ((← value? a) * 64 + (← value? b)) * 64 + (← value? c)
    if n % 4 = 0 then some [(n / 1024).toUInt8, (n / 4).toUInt8] else none
  | a :: b :: c :: d :: r => do
    let n := (((← value? a) * 64 + (← value? b)) * 64 + (← value? c)) * 64 + (← value? d)
    let rest ← decode? r
    some ((n / 65536).toUInt8 :: (n / 256).toUInt8 :: n.toUInt8 :: rest)
  | _ => none

theorem value?_digit (n : Nat) : value? (digit n) = some (n % 64) := by
  have hall : ∀ m < 64, value? (digit m) = some m := by decide +kernel
  have hdigit : digit n = digit (n % 64) := by rw [digit, digit, Nat.mod_mod]
  rw [hdigit, hall _ (Nat.mod_lt n (by decide))]

theorem digit_ne (n : Nat) : digit n ≠ '=' := by
  intro h
  have hnone : value? '=' = none := by decide
  rw [← h, value?_digit] at hnone
  cases hnone

theorem toUInt8_eq {n : Nat} {b : UInt8} (h : n % 256 = b.toNat) : n.toUInt8 = b :=
  UInt8.toNat_inj.1 ((UInt8.toNat_ofNat').trans h)

theorem decode?_encode (bs : List UInt8) : decode? (encode bs) = some bs := by
  fun_induction encode bs with
  | case1 => rfl
  | case2 a n =>
    have ha := a.toNat_lt
    have hn : n / 64 % 64 * 64 + n % 64 = a.toNat * 16 := by omega
    have hbyte : (a.toNat * 16 / 16).toUInt8 = a := toUInt8_eq (by omega)
    rw [decode?]
    simp only [value?_digit, Option.bind_eq_bind, Option.bind_some, hn, Nat.mul_mod_left, if_true, hbyte]
  | case3 a b n =>
    have ha := a.toNat_lt
    have hb := b.toNat_lt
    have hn : (n / 4096 % 64 * 64 + n / 64 % 64) * 64 + n % 64 = (a.toNat * 256 + b.toNat) * 4 := by omega
    have hbyte : ((a.toNat * 256 + b.toNat) * 4 / 1024).toUInt8 = a := toUInt8_eq (by omega)
    have hbyte' : ((a.toNat * 256 + b.toNat) * 4 / 4).toUInt8 = b := toUInt8_eq (by omega)
    rw [decode?]
    · simp only [value?_digit, Option.bind_eq_bind, Option.bind_some, hn, Nat.mul_mod_left, if_true, hbyte, hbyte']
    · exact fun h => digit_ne _ h
  | case4 a b c r n ih =>
    have ha := a.toNat_lt
    have hb := b.toNat_lt
    have hc := c.toNat_lt
    have hn : ((n / 262144 % 64 * 64 + n / 4096 % 64) * 64 + n / 64 % 64) * 64 + n % 64 =
        (a.toNat * 256 + b.toNat) * 256 + c.toNat := by omega
    have hbyte : (((a.toNat * 256 + b.toNat) * 256 + c.toNat) / 65536).toUInt8 = a := toUInt8_eq (by omega)
    have hbyte' : (((a.toNat * 256 + b.toNat) * 256 + c.toNat) / 256).toUInt8 = b := toUInt8_eq (by omega)
    have hbyte'' : ((a.toNat * 256 + b.toNat) * 256 + c.toNat).toUInt8 = c := toUInt8_eq (by omega)
    rw [decode?]
    · simp only [value?_digit, Option.bind_eq_bind, Option.bind_some, ih, hn, hbyte, hbyte', hbyte'']
    · exact fun h => absurd h (digit_ne _)
    · exact fun h => absurd h (digit_ne _)

end Autodoc.Text.Base64
