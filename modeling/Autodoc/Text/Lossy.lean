namespace Autodoc.Text

/-- For a first byte, the range of the second and how many bytes follow the first. -/
def leadByte? (b : UInt8) : Option (UInt8 × UInt8 × Nat) :=
  if 0xC2 ≤ b && b ≤ 0xDF then some (0x80, 0xBF, 1)
  else if b == 0xE0 then some (0xA0, 0xBF, 2)
  else if b == 0xED then some (0x80, 0x9F, 2)
  else if 0xE1 ≤ b && b ≤ 0xEF then some (0x80, 0xBF, 2)
  else if b == 0xF0 then some (0x90, 0xBF, 3)
  else if 0xF1 ≤ b && b ≤ 0xF3 then some (0x80, 0xBF, 3)
  else if b == 0xF4 then some (0x80, 0x8F, 3)
  else none

/-- How many of the bytes after a first one belong to its character: at most `n`, the first of them within
the range. -/
def following (low high : UInt8) : Nat → List UInt8 → Nat
  | 0, _ => 0
  | _, [] => 0
  | n + 1, b :: bs => if low ≤ b && b ≤ high then following 0x80 0xBF n bs + 1 else 0

def codePoint (first : UInt8) (more : List UInt8) : Nat :=
  let bits := match more.length with
    | 1 => first.toNat % 0x20
    | 2 => first.toNat % 0x10
    | _ => first.toNat % 0x08
  more.foldl (fun n b => n * 0x40 + b.toNat % 0x40) bits

def lossyChars : List UInt8 → List Char
  | [] => []
  | b :: bs =>
    if b < 0x80 then Char.ofNat b.toNat :: lossyChars bs
    else
      match leadByte? b with
      | none => '\uFFFD' :: lossyChars bs
      | some (low, high, n) =>
        let k := following low high n bs
        (if k = n then Char.ofNat (codePoint b (bs.take k)) else '\uFFFD') :: lossyChars (bs.drop k)
termination_by bs => bs.length
decreasing_by all_goals (simp only [List.length_cons, List.length_drop]; omega)

def lossy (data : ByteArray) : String := String.ofList (lossyChars data.toList)

end Autodoc.Text
