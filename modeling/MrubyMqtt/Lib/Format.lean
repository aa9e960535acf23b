import MrubyMqtt.Lib.Bytes

/-!
# Format strings without arguments

The first argument of `sprintf` is a format: a `%` opens a directive. Where there is no other
argument, only the directives that need none can be carried out, `%%` and a `%` before a newline or
a NUL, and these stand for a `%`. Every other directive raises `ArgumentError`: a conversion is
short of its argument, and flags, widths and unknown letters are malformed without one.

A format is read byte by byte. `directive` carries whether a directive is open; it reads what is
put together piece by piece (`directive_append`), and a piece without a `%` makes no difference
(`directive_of_not_mem`).
-/

open Bytes

namespace Format

/-- One byte of a format, after an open `%` or not; `none` is an `ArgumentError`. -/
def directiveStep : Bool → UInt8 → Option Bool
  | false, b => some (b = 0x25)
  | true, b => if b = 0x25 ∨ b = 0x0A ∨ b = 0 then some false else none

/-- A piece of a format. -/
def directive (opened : Bool) (piece : Bytes) : Option Bool := piece.foldlM directiveStep opened

/-- `sprintf(format)` returns. -/
def accepts (format : Bytes) : Bool := directive false format = some false

theorem directive_append (opened : Bool) (a b : Bytes) :
    directive opened (a ++ b) = (directive opened a).bind fun opened ↦ directive opened b :=
  List.foldlM_append

/-- What holds no `%` is printed as it is. -/
theorem directive_of_not_mem {piece : Bytes} (h : (0x25 : UInt8) ∉ piece) :
    directive false piece = some false := by
  induction piece with
  | nil => rfl
  | cons b piece ih =>
    obtain ⟨hb, hrest⟩ := not_or.1 (mt List.mem_cons.2 h)
    have hstep : directiveStep false b = some false := by simp [directiveStep, Ne.symm hb]
    show (directiveStep false b).bind (directive · piece) = _
    rw [hstep]
    exact ih hrest

/-- A space cannot follow an open `%`: it is a flag. -/
theorem directive_space (opened : Bool) (rest : Bytes) :
    directive opened (0x20 :: rest) = if opened then none else directive false rest := by
  cases opened <;> rfl

/-- At the end of a line every directive that is still open is closed. -/
theorem directive_newline (opened : Bool) : directive opened [0x0A] = some false := by
  cases opened <;> rfl

end Format
