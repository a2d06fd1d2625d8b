import Autodoc.Json.Fault

namespace Autodoc.Json

def isBlank (c : Char) : Bool := c = ' ' || c = '\n' || c = '\t' || c = '\r'

def skipBlanks (s : List Char) : List Char := s.dropWhile isBlank

theorem length_skipBlanks_le (s : List Char) : (skipBlanks s).length ≤ s.length :=
  (List.dropWhile_suffix _).length_le

def scanWord : List Char → List Char → Except Fault (List Char)
  | [], s => .ok s
  | _ :: _, [] => .error (.here .endInValue [])
  | c :: w, d :: s => if c = d then scanWord w s else .error (.next .expectedWord (d :: s))

def hexDigit? (c : Char) : Option Nat :=
  if '0' ≤ c ∧ c ≤ '9' then some (c.toNat - '0'.toNat)
  else if 'a' ≤ c ∧ c ≤ 'f' then some (c.toNat - 'a'.toNat + 10)
  else if 'A' ≤ c ∧ c ≤ 'F' then some (c.toNat - 'A'.toNat + 10)
  else none

def hexDigits? (cs : List Char) : Option Nat :=
  cs.foldlM (fun n c => (hexDigit? c).map (n * 16 + ·)) 0

/-- Four hexadecimal digits. What is not one is complained about after four bytes. -/
def scanUnit (s : List Char) : Scan Nat :=
  match s with
  | a :: b :: c :: d :: r =>
    match hexDigits? [a, b, c, d] with
    | some n => .ok (n, r)
    | none => .error ⟨[], .flaw .invalidEscape, s, 4⟩
  | _ =>
    if (String.ofList s).utf8ByteSize < 4 then .error (.here .endInString [])
    else .error ⟨[], .flaw .invalidEscape, s, 4⟩

theorem length_of_scanUnit {s r : List Char} {n : Nat} (h : scanUnit s = .ok (n, r)) :
    r.length < s.length := by
  unfold scanUnit at h
  split at h
  · split at h
    · cases h; simp only [List.length_cons]; omega
    · cases h
  · split at h <;> cases h

def isHighSurrogate (n : Nat) : Bool := 0xD800 ≤ n && n ≤ 0xDBFF

def isLowSurrogate (n : Nat) : Bool := 0xDC00 ≤ n && n ≤ 0xDFFF

def scanLowHalf (high : Nat) (s : List Char) : Scan Char :=
  match s with
  | [] => .error (.here .endInString [])
  | '\\' :: [] => .error (.here .endInString [])
  | '\\' :: 'u' :: r =>
    match scanUnit r with
    | .error e => .error e
    | .ok (low, r') =>
      if isLowSurrogate low then
        .ok (Char.ofNat (0x10000 + (high - 0xD800) * 0x400 + (low - 0xDC00)), r')
      else .error (.here .loneSurrogate r')
  | '\\' :: r => .error (.next .brokenSurrogatePair r)
  | r => .error (.next .brokenSurrogatePair r)

theorem length_of_scanLowHalf {high : Nat} {s r : List Char} {c : Char}
    (h : scanLowHalf high s = .ok (c, r)) : r.length < s.length := by
  unfold scanLowHalf at h
  split at h
  · cases h
  · cases h
  · split at h
    · cases h
    · rename_i low r' hu
      have := length_of_scanUnit hu
      split at h
      · simp only [Except.ok.injEq, Prod.mk.injEq] at h
        obtain ⟨_, rfl⟩ := h
        simp only [List.length_cons]; omega
      · cases h
  · cases h
  · cases h

def scanEscape (s : List Char) : Scan Char :=
  match s with
  | [] => .error (.here .endInString [])
  | '"' :: r => .ok ('"', r)
  | '\\' :: r => .ok ('\\', r)
  | '/' :: r => .ok ('/', r)
  | 'b' :: r => .ok ('\x08', r)
  | 'f' :: r => .ok ('\x0c', r)
  | 'n' :: r => .ok ('\n', r)
  | 'r' :: r => .ok ('\r', r)
  | 't' :: r => .ok ('\t', r)
  | 'u' :: r =>
    match scanUnit r with
    | .error e => .error e
    | .ok (n, r') =>
      if isLowSurrogate n then .error (.here .loneSurrogate r')
      else if isHighSurrogate n then scanLowHalf n r'
      else .ok (Char.ofNat n, r')
  | r => .error (.next .invalidEscape r)

theorem length_of_scanEscape {s r : List Char} {c : Char} (h : scanEscape s = .ok (c, r)) :
    r.length < s.length := by
  unfold scanEscape at h
  split at h
  case h_10 r' =>
    split at h
    · cases h
    · rename_i n r'' hu
      have hlen := length_of_scanUnit hu
      split at h
      · cases h
      · split at h
        · have := length_of_scanLowHalf h
          simp only [List.length_cons]; omega
        · cases h; simp only [List.length_cons]; omega
  all_goals (cases h; try simp)

/-- A string, after its opening quote; `acc` holds what was read, last character first. -/
def scanString (acc : List Char) (s : List Char) : Scan String :=
  match s with
  | [] => .error (.here .endInString [])
  | '"' :: r => .ok (String.ofList acc.reverse, r)
  | '\\' :: r =>
    match _h : scanEscape r with
    | .error e => .error e
    | .ok (c, r') => scanString (c :: acc) r'
  | c :: r =>
    if c.toNat < 0x20 then .error (.next .controlCharacter (c :: r)) else scanString (c :: acc) r
termination_by s.length
decreasing_by
  · have := length_of_scanEscape _h
    simp only [List.length_cons]; omega
  · simp

end Autodoc.Json
