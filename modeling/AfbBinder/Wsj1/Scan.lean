import AfbBinder.Lib.JsonText
import AfbBinder.Lib.Outcome

/-!
# Scanning the messages of a JSON websocket

`wsj1_msg_scan` cuts the text `[...]` of a message in its items, whatever JSON they hold:
it only counts brackets and skips strings.  A pointer in the text is the bytes from there
up to the final NUL included, so that a pointer after the NUL has no byte to read.
-/

namespace AfbBinder.Wsj1

open Lib Lib.JsonText

/-! ## Reading -/

/-- The accesses that go wrong: after the NUL of the text, to an item that was not filled,
through a callback that is `NULL`. -/
inductive Fault where
  | pastEnd
  | unfilledItem
  | nullCallback
deriving DecidableEq, Repr

/-- Why a function of the parser has no result: `goto bad_scan` or `goto bad_header`, or a
fault. -/
inductive Stop where
  | bad
  | fault (fault : Fault)
deriving DecidableEq, Repr

/-- `*pos` -/
def deref : Bytes → Except Stop UInt8
  | [] => .error (.fault .pastEnd)
  | c :: _ => .ok c

/-- `while(*pos == ' ') pos++` -/
def skipBlanks : Bytes → Except Stop Bytes
  | [] => .error (.fault .pastEnd)
  | c :: rest => if c = space then skipBlanks rest else .ok (c :: rest)

/-! ## Items -/

/-- What reads the next byte: the loop over an item, the loop over a string inside of it or,
in that loop, the test of the byte after a backslash. -/
inductive Reading where
  | item
  | string
  | escaped
deriving DecidableEq, Repr

/-- The loops over an item, at the depth `aux`. -/
def scanItem : Reading → Nat → Bytes → Except Stop Bytes
  | _, _, [] => .error (.fault .pastEnd)
  | .escaped, aux, c :: rest => if c = 0 then .error .bad else scanItem .string aux rest
  | .string, aux, c :: rest =>
      if c = backslash then scanItem .escaped aux rest
      else if c = 0 then .error .bad
      else scanItem (if c = quote then .item else .string) aux rest
  | .item, aux, c :: rest =>
      if aux = 0 ∧ (c = comma ∨ c = closeBracket) then .ok (c :: rest)
      else if c = openBrace ∨ c = openBracket then scanItem .item (aux + 1) rest
      else if c = closeBrace ∨ c = closeBracket then
        if aux = 0 then .error .bad else scanItem .item (aux - 1) rest
      else if c = 0 then .error .bad
      else scanItem (if c = quote then .string else .item) aux rest

/-- `while (end > beg && end[-1] == ' ') end--`, on the distance of `end` to `beg`. -/
def trimEnd (beg : Bytes) : Nat → Except Stop Nat
  | 0 => .ok 0
  | n + 1 =>
      match beg[n]? with
      | none => .error (.fault .pastEnd)
      | some c => if c = space then trimEnd beg n else .ok (n + 1)

/-- A filled row of `items`. -/
structure Item where
  offset : Nat
  length : Nat
deriving DecidableEq, Repr

/-- The loop over the list, with room for some more items. -/
def scanItems (text : Bytes) : Nat → Bytes → List Item → Except Stop (List Item × Bytes)
  | 0, _, _ => .error .bad
  | room + 1, beg, items => do
      let pos ← scanItem .item 0 beg
      let length ← trimEnd beg (beg.length - pos.length)
      let filled := items ++ [⟨text.length - beg.length, length⟩]
      let c ← deref pos
      if c = closeBracket then .ok (filled, pos)
      else
        let next ← skipBlanks pos.tail
        scanItems text room next filled

/-- The items after the opening bracket, and the pointer to the closing one. -/
def scanList (text pos : Bytes) : Except Stop (List Item × Bytes) := do
  let beg ← skipBlanks pos
  let c ← deref beg
  if c = closeBracket then .ok ([], beg) else scanItems text 10 beg []

/-- `wsj1_msg_scan`: the rows of `items` that it fills. -/
def wsj1MsgScan (text : Bytes) : Except Stop (List Item) := do
  let pos ← skipBlanks text
  let c ← deref pos
  if c ≠ openBracket then .error .bad
  else
    let (items, pos) ← scanList text pos.tail
    let pos ← skipBlanks pos.tail
    let c ← deref pos
    if c ≠ 0 then .error .bad else .ok items

end AfbBinder.Wsj1
