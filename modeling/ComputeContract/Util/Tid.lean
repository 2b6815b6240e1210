import Mathlib.Data.String.Basic

/-!
# TIDs

The sortable time identifiers of commits: 13 characters of an ASCII-sortable base32
alphabet.
-/

namespace ComputeContract

/-- ASCII-sortable base32 alphabet, different from the one of CIDs. -/
def TID_B32 : List Char := "234567abcdefghijklmnopqrstuvwxyz".toList

def TID_LEN : ℕ := 13

def isValidTid (s : String) : Bool :=
  s.length = TID_LEN ∧ s.toList.all fun c => c ∈ TID_B32

/-- A TID. -/
abbrev Tid := {s : String // isValidTid s}

def sampleTid : Tid := ⟨"3kabcdefghijk", by decide⟩

end ComputeContract
