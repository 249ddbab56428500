/-
Doubles and numbers of single precision.

A number that may have more digits than either can hold is an unpacked float: a
zero, an infinity, no number, or a sign with a whole mantissa and a power of two.
It is rounded to a format at once, so that a whole number of 64 bits reaches
single precision without a double between.  Numbers of single precision are
doubles as well and are kept as such.
-/
namespace FieldRules
namespace Number

open Float.Model

/-- The number of a format nearest to a number, of two the even one.  Too great a number becomes
infinite. -/
def nearest (format : Format) : UnpackedFloat → UnpackedFloat
  | .finite sign mantissa exponent _ =>
    .unpack format (UnpackedFloat.pack format (.round format sign mantissa exponent))
  | other => other

/-- The double nearest to a number. -/
def ofUnpacked (x : UnpackedFloat) : Float :=
  Float.ofBits ⟨UnpackedFloat.pack .binary64 (nearest .binary64 x)⟩

def unpacked (x : Float) : UnpackedFloat := .unpack .binary64 x.toBits.toBitVec

/-- A whole number as it is. -/
def wholeNumber : Int → UnpackedFloat
  | .ofNat 0 => .zero .positive
  | .ofNat (n + 1) => .finite .positive (n + 1) 0 n.succ_pos
  | .negSucc n => .finite .negative (n + 1) 0 n.succ_pos

def toSingle (x : Float) : Float := ofUnpacked (nearest .binary32 (unpacked x))

/-- A whole number of 64 bits as a double. -/
def ofInteger (i : Int) : Float := ofUnpacked (wholeNumber i)

/-- A whole number of 64 bits rounded once, to single precision. -/
def ofIntegerSingle (i : Int) : Float := ofUnpacked (nearest .binary32 (wholeNumber i))

/-- The greatest finite number of single precision. -/
def singleMax : Float := 3.4028234663852886e38

end Number
end FieldRules
