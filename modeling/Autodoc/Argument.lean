import Autodoc.Kind

namespace Autodoc

structure ArgumentFlags where
  required : Bool
  construct : Bool
  setOnce : Bool
  setAlways : Bool
  input : Bool
  output : Bool
  deprecated : Bool
  modify : Bool
  deriving DecidableEq

namespace ArgumentFlags

/-- The low eight bits, least first; all others are dropped. -/
def ofBits (n : UInt32) : ArgumentFlags :=
  let bit (i : Nat) : Bool := n.toNat.testBit i
  ⟨bit 0, bit 1, bit 2, bit 3, bit 4, bit 5, bit 6, bit 7⟩

def toList (f : ArgumentFlags) : List (String × Bool) :=
  [("REQUIRED", f.required), ("CONSTRUCT", f.construct), ("SET_ONCE", f.setOnce),
    ("SET_ALWAYS", f.setAlways), ("INPUT", f.input), ("OUTPUT", f.output),
    ("DEPRECATED", f.deprecated), ("MODIFY", f.modify)]

def bits (f : ArgumentFlags) : Nat := f.toList.foldr (fun b n => 2 * n + b.2.toNat) 0

def names (f : ArgumentFlags) : List String := (f.toList.filter (·.2)).map Prod.fst

def isRequiredInput (f : ArgumentFlags) : Bool := f.required && f.input

def isRequiredOutput (f : ArgumentFlags) : Bool := f.required && f.output

theorem bits_ofBits (n : UInt32) : (ofBits n).bits = n.toNat % 256 := by
  have hdigit (i m : Nat) : m % 2 ^ (i + 1) = m % 2 ^ i + 2 ^ i * (m.testBit i).toNat := by
    rw [Nat.toNat_testBit, Nat.pow_succ, Nat.mod_mul]
  simp only [bits, toList, ofBits, List.foldr_cons, List.foldr_nil]
  have h := hdigit 7 n.toNat
  simp only [hdigit 6, hdigit 5, hdigit 4, hdigit 3, hdigit 2, hdigit 1, hdigit 0, Nat.pow_zero, Nat.mod_one] at h
  omega

theorem ofBits_bits (f : ArgumentFlags) : ofBits f.bits.toUInt32 = f := by
  obtain ⟨a, b, c, d, e, g, h, i⟩ := f
  revert a b c d e g h i
  decide

end ArgumentFlags

structure Argument where
  name : String
  flags : ArgumentFlags
  type : TypeDescriptor
  blurb : String
  deriving DecidableEq

end Autodoc
