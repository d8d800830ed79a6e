import Mathlib.Data.Finmap
import Mathlib.Data.List.DropRight
import BbMonitor.Strings

/-!
# Lists and maps as texts for PostgreSQL

`to_pg` writes a list as an `ARRAY` expression and a map as an `hstore` literal;
`pg2proto` reads a map back.  The strings are written as they are, without any escapes.

The iteration over a map of protobuf has no fixed order, so that `to_pg` gets the pairs in
the order of the iteration.
-/

namespace BbMonitor.GrpcUtils

/-- `'\''`. -/
def quote : UInt8 := 0x27

/-- A map of protobuf. -/
abbrev StringMap := Finmap fun _ : Bytes => Bytes

/-! ## Writing -/

/-- The loop of `to_pg` over a list: the elements from some place on. -/
def elementsToPg : List Bytes → Bytes
  | [] => []
  | s :: rest =>
      if s.length > 0 then
        bytes "'" ++ s ++ bytes "'" ++ (if rest = [] then bytes "" else bytes ", ") ++
          elementsToPg rest
      else elementsToPg rest

/-- `to_pg` for a list. -/
def listToPg (v : List Bytes) : Bytes :=
  bytes "ARRAY[" ++ elementsToPg v ++ bytes "]::TEXT[]"

/-- A round of the loop of `to_pg` over a map: the text, and whether it is the first. -/
def addPair (state : Bytes × Bool) (i : Σ _ : Bytes, Bytes) : Bytes × Bool :=
  let result := if state.2 then state.1 else state.1 ++ bytes ", "
  (result ++ bytes "\"" ++ i.1 ++ bytes "\"=>\"" ++ i.2 ++ bytes "\"", false)

/-- `to_pg` for a map, in the order of its iteration. -/
def mapToPg (m : List (Σ _ : Bytes, Bytes)) : Bytes :=
  (m.foldl addPair (bytes "'", true)).1 ++ bytes "'"

/-! ## Reading -/

/-- `std::isspace`. -/
def isSpace (c : UInt8) : Bool :=
  c = 0x20 ∨ 0x09 ≤ c ∧ c ≤ 0x0d

def ltrim (s : Bytes) : Bytes := s.dropWhile isSpace

def rtrim (s : Bytes) : Bytes := s.rdropWhile isSpace

def trim (s : Bytes) : Bytes := rtrim (ltrim s)

/-- `split_key_val`: two empty strings if there is no delimiter. -/
def splitKeyVal (s delimiter : Bytes) : Bytes × Bytes :=
  match find s delimiter 0 with
  | some pos => (s.take pos, s.drop (pos + delimiter.length))
  | none => ([], [])

/-- `split_string2vector` for a character, by `boost::split`. -/
def splitString2vector (text : Bytes) (delimiter : UInt8) : List Bytes :=
  text.splitOn delimiter

/-- `s.erase(std::remove(s.begin(), s.end(), c), s.end())`. -/
def eraseAll (c : UInt8) (s : Bytes) : Bytes :=
  s.filter (· ≠ c)

/-- A round of the loop of `pg2proto` for a map. -/
def readPair (p : StringMap) (i : Bytes) : StringMap :=
  let kv := splitKeyVal i (bytes "=>")
  let key := eraseAll quotationMark (trim kv.1)
  let val := eraseAll quotationMark (trim kv.2)
  if key.length > 0 then p.insert key val else p

/-- `pg2proto` for a map. -/
def pg2proto (s : Bytes) (p : StringMap) : StringMap :=
  (splitString2vector s comma).foldl readPair p

end BbMonitor.GrpcUtils
