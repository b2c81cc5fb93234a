import Mathlib.Data.Nat.Notation
import Mathlib.Data.UInt
import TcBle.Foundation.Loops

/-!
# The format printer

`drivers/TC123X/printf.c`: what `tl_printf` and `tl_sprintf` print for a format string and a list of
arguments, all of which are words.

## The model

A format is read from the memory, by its distance from the first character; where it has been read
is noted. So is what `tl_putint` printed, with the number that it was given. `tl_putchar` adds to
what is printed, be it in a buffer or on the wire. What lies in the memory behind a format, what the
arguments are, the strings they point at, and what the core gives for a shift by more bits than a
word has, are parameters. Arithmetic on `int` wraps, as it does on the core. A character over `127`
is neither a digit nor a conversion, whether `char` has a sign or not.

## What is proved

* `formatLoop_steady`, `tlFormatMsg_steady` and `printLoop_steady` — that the loops may take more
  rounds changes nothing.
-/

namespace TcBle.Drivers

open Foundation.Loops

/-- A format string in the memory. -/
structure Format where
  /-- The memory, from the first character on. -/
  mem : ℕ → UInt8
  /-- Where the terminator is. -/
  length : ℕ
  ended : mem length = 0
  inside : ∀ i < length, mem i ≠ 0

/-- The characters of the format. -/
def Format.chars (fmt : Format) : List UInt8 := (List.range fmt.length).map fmt.mem

/-- What the printer is given besides the format. -/
structure Arguments where
  /-- The list of arguments. -/
  list : ℕ → Int32
  /-- The string at an address. -/
  string : Int32 → List UInt8
  /-- A word shifted right by so many bytes, where it has fewer. -/
  wideShift : UInt32 → ℕ → UInt8

/-- What the printer has done. -/
structure Printing where
  /-- `pcStr`, and `f` in `tl_format_msg`. -/
  pcStr : ℕ
  /-- How many arguments have been taken. -/
  list : ℕ
  /-- What has been printed. -/
  out : List UInt8
  /-- Where the format has been read. -/
  reads : List ℕ
  /-- What `tl_putint` has been given, and has printed. -/
  ints : List (Int32 × List UInt8)

namespace Printing

/-- Characters are printed. -/
def putchars (s : Printing) (cs : List UInt8) : Printing := { s with out := s.out ++ cs }

/-- The character at the pointer is read. -/
def read (s : Printing) : Printing := { s with reads := s.reads ++ [s.pcStr] }

/-- The pointer goes on. -/
def next (s : Printing) : Printing := { s with pcStr := s.pcStr + 1 }

/-- An argument is taken. -/
def vaArg (s : Printing) : Printing := { s with list := s.list + 1 }

end Printing

/-- A nibble as it is printed. -/
def nibChar (nib : UInt8) : UInt8 := if 9 < nib then nib + 87 else nib + 48

/-- `tl_putnum`. -/
def tlPutnum (c : UInt8) : List UInt8 := [nibChar (c >>> 4), nibChar (c &&& 15)]

/-- The loop of `tl_putnumber`. -/
def putnumberFrom (args : Arguments) (w : UInt32) : ℕ → List UInt8
  | 0 => []
  | i + 1 =>
    tlPutnum (if i < 4 then (w >>> (UInt32.ofNat i * 8)).toUInt8 else args.wideShift w i) ++
      putnumberFrom args w i

/-- `tl_putnumber`. -/
def tlPutnumber (args : Arguments) (w : UInt32) (len : Int32) : List UInt8 :=
  putnumberFrom args w len.toInt.toNat

/-- The first loop of `tl_putint`, which fills the buffer from its end, where there is room for so
many characters. -/
def putintDigits : ℕ → Int32 → List UInt8 → Option (List UInt8)
  | 0, _, _ => none
  | room + 1, u, p =>
    let tmp := (u % 10).toUInt32.toUInt8
    let p := (tmp + 48) :: p
    if u / 10 ≠ 0 then putintDigits room (u / 10) p else some p

/-- The sign, if there is room for it. -/
def putintSign (w : Int32) (p : List UInt8) : Option (List UInt8) :=
  if w < 0 then if p.length < 11 then some (45 :: p) else none else some p

/-- `tl_putint`. The second loop prints up to the `'\0'` that ends the buffer. -/
def tlPutint (w : Int32) : Option (List UInt8) := do
  let u := if w < 0 then -w else w
  let p ← putintDigits 11 u []
  let p ← putintSign w p
  return p.takeWhile (· ≠ 0)

/-- `tl_putstring`. -/
def tlPutstring (args : Arguments) (str : Int32) : List UInt8 :=
  if str = 0 then [40, 110, 117, 108, 108, 41] -- `"(null)"`
  else args.string str

/-- The loop of `get_field_width`. -/
def fieldWidthFrom : ℕ → UInt32 → UInt8 → UInt8
  | 0, _, ret => ret
  | rounds + 1, num, ret =>
    if num >>> 1 = 0 then ret else fieldWidthFrom rounds (num >>> 1) (ret + 1)

/-- `get_field_width`. -/
def getFieldWidth (num : UInt32) : UInt8 := (fieldWidthFrom 32 num 1 + 7) >>> 3

/-- A character is a digit. -/
def IsDigit (c : UInt8) : Prop := 48 ≤ c ∧ c ≤ 57

instance (c : UInt8) : Decidable (IsDigit c) := inferInstanceAs (Decidable (_ ∧ _))

/-- The flag of a conversion character. -/
def flagOf (c : UInt8) : Int32 :=
  if c = 120 then 16 -- `'x'`
  else if c = 100 then 10 -- `'d'`
  else if c = 115 then 99 -- `'s'`
  else -1

/-- A round of the loop of `tl_format_msg`. The last round gives the field width and the flag. -/
def formatRound (fmt : Format) (a : Int32) :
    Printing × Int32 → Option ((Printing × Int32) ⊕ (Printing × Int32 × Int32))
  | (s, fieldwidth) =>
    let c := fmt.mem s.pcStr
    let s := s.read.next
    if c = 0 then some (.inr (s, fieldwidth, 0))
    else if IsDigit c then some (.inl (s, fieldwidth * 10 + (c.toUInt32.toInt32 - 48)))
    else
      let s := if flagOf c = -1 then s.putchars [42] else s -- `'*'`
      let fieldwidth :=
        if fieldwidth = 0 then (getFieldWidth a.toUInt32).toUInt32.toInt32 else fieldwidth
      some (.inr (s, fieldwidth, flagOf c))

/-- What `tl_format_msg` does after its loop. -/
def formatEnd (args : Arguments) (a : Int32) : Printing × Int32 × Int32 → Option Printing
  | (s, fieldwidth, flag) =>
    if flag = 16 then some (s.putchars (tlPutnumber args a.toUInt32 fieldwidth))
    else if flag = 10 then
      (tlPutint a).map fun cs => { s.putchars cs with ints := s.ints ++ [(a, cs)] }
    else if flag = 99 then some (s.putchars (tlPutstring args a))
    else some s

/-- `tl_format_msg`. -/
def tlFormatMsg (fmt : Format) (args : Arguments) (a : Int32) (rounds : ℕ) (s : Printing) :
    Option Printing :=
  (loop (formatRound fmt a) rounds (s, 0)).bind (formatEnd args a)

/-- A round of the loop of `tl_print`. -/
def printRound (fmt : Format) (args : Arguments) (rounds : ℕ) (s : Printing) :
    Option (Printing ⊕ Printing) :=
  let c := fmt.mem s.pcStr
  let s := s.read
  if c = 0 then some (.inr s)
  else if c = 37 then -- `'%'`
    (tlFormatMsg fmt args (args.list s.list) rounds s.next.vaArg).map .inl
  else some (.inl (s.putchars [c]).next)

/-- The loop of `tl_print`. -/
def printLoop (fmt : Format) (args : Arguments) (rounds : ℕ) (s : Printing) : Option Printing :=
  loop (printRound fmt args rounds) rounds s

variable {fmt : Format} {args : Arguments}

/-! ### The loops -/

theorem formatLoop_steady (a : Int32) : Steady fun n => loop (formatRound fmt a) n :=
  (steady_const (formatRound fmt a)).loop

theorem tlFormatMsg_steady (a : Int32) : Steady (tlFormatMsg fmt args a) :=
  ((formatLoop_steady a).comp fun s => (s, 0)).bind _

theorem printRound_steady : Steady (printRound fmt args) := by
  intro n m h s x hrun
  unfold printRound at hrun ⊢
  dsimp only at hrun ⊢
  split_ifs at hrun ⊢
  · exact hrun
  · obtain ⟨s', hs', rfl⟩ := Option.map_eq_some_iff.mp hrun
    rw [(tlFormatMsg_steady _).run h hs']
    rfl
  · exact hrun

theorem printLoop_steady : Steady (printLoop fmt args) := printRound_steady.loop

end TcBle.Drivers
