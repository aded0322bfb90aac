/-! # Byte strings

A `std::string` or `std::string_view` holds any bytes, not only those of a valid
encoding. -/

namespace BackendPatterns.Lib

abbrev Bytes := List UInt8

/-- The bytes of a string literal. -/
def str (s : String) : Bytes := s.toUTF8.data.toList

/-- `substr(pos, n)` for a position inside the string. -/
def Bytes.substr (s : Bytes) (pos n : Nat) : Bytes := (s.drop pos).take n

theorem Bytes.substr_zero (s : Bytes) (n : Nat) : s.substr 0 n = s.take n := rfl

end BackendPatterns.Lib
