import PhpAtlas.Text.Basic

/-!
# ASCII case folding

Class, function and keyword names are compared without regard to the case of ASCII letters; all
other characters are compared as they are.

## Main definitions

* `fold` — lower-case the ASCII letters of a string.
* `foldEq` — equality up to the case of ASCII letters.
-/

namespace PhpAtlas

/-- Lower-case the ASCII letters of a text. -/
def Text.fold (t : Text) : Text := t.map Char.toLower

/-- Lower-case the ASCII letters of a string. -/
def fold (s : String) : String := String.ofList (Text.fold s.toList)

/-- Equality up to the case of ASCII letters. -/
def foldEq (a b : String) : Bool := fold a == fold b

theorem foldEq_iff {a b : String} : foldEq a b = true ↔ fold a = fold b := by
  simp [foldEq]

@[simp] theorem foldEq_refl (a : String) : foldEq a a = true := by simp [foldEq]

theorem foldEq_comm (a b : String) : foldEq a b = foldEq b a := by
  simp only [foldEq]
  exact Bool.beq_comm

theorem foldEq_trans {a b c : String} (hab : foldEq a b = true) (hbc : foldEq b c = true) :
    foldEq a c = true := by
  rw [foldEq_iff] at *
  exact hab.trans hbc

/-- Whether one of the strings equals `s` up to the case of ASCII letters. -/
def foldMem (s : String) (all : List String) : Bool := all.any (foldEq s)

end PhpAtlas
