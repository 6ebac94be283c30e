import Depot.Zstd.Bits

/-!
# Finite state entropy tables

A table has `2 ^ log` states; a state gives a symbol and tells how many bits lead to the next
state. A distribution gives each symbol its number of states; `none` marks a symbol that is less
likely than one state and gets a state of its own that is left by reading `log` bits.
-/

namespace Depot.Zstd.Fse

/-- What a state stands for: its symbol, the number of bits to read, and the state reached by zero
bits. -/
structure Entry where
  symbol : Nat
  bits : Nat
  base : Nat
  deriving Inhabited

structure Table where
  log : Nat
  entries : Array Entry

def Table.entry (t : Table) (state : Nat) : Entry := t.entries.getD state ⟨0, 0, 0⟩

/-- The table with one state, which always gives `symbol`. -/
def Table.constant (symbol : Nat) : Table := ⟨0, #[⟨symbol, 0, 0⟩]⟩

/-- The share of a symbol: a number of states, or less than one. -/
abbrev Share := Option Nat

def Share.states : Share → Nat
  | none => 1
  | some n => n

/-- The symbols of the states from the top of the table down that belong to unlikely symbols. -/
def unlikely (shares : List Share) : List Nat :=
  (shares.zipIdx.filter fun p => p.1.isNone).map (·.2)

/-- The position after `pos` at which the next state of a symbol is put. -/
def nextSlot (size high step : Nat) : Nat → Nat → Nat
  | 0, pos => pos
  | fuel + 1, pos =>
    let pos := (pos + step) % size
    if pos < high then pos else nextSlot size high step fuel pos

/-- The symbol of each state: unlikely symbols at the top, the others spread by a fixed step. -/
def spread (log : Nat) (shares : List Share) : Array Nat :=
  let size := 1 <<< log
  let rare := unlikely shares
  let high := size - rare.length
  let cells := (rare.zipIdx).foldl (fun (cells : Array Nat) p => cells.setIfInBounds (size - 1 - p.2) p.1)
    (Array.replicate size 0)
  let step := size / 2 + size / 8 + 3
  (shares.zipIdx.foldl (fun (acc : Array Nat × Nat) p =>
    match p.1 with
    | none => acc
    | some n =>
      Nat.fold n (fun _ _ (acc : Array Nat × Nat) =>
        (acc.1.setIfInBounds acc.2 p.2, nextSlot size high step size acc.2)) acc) (cells, 0)).1

/-- The decoding table of a distribution. -/
def build (log : Nat) (shares : List Share) : Table :=
  let cells := spread log shares
  let counters : Array Nat := (shares.map Share.states).toArray
  let out := cells.foldl (fun (acc : Array Entry × Array Nat) symbol =>
    let next := acc.2.getD symbol 1
    let bits := log - Nat.log2 next
    (acc.1.push ⟨symbol, bits, next <<< bits - 1 <<< log⟩, acc.2.setIfInBounds symbol (next + 1)))
    (Array.mkEmpty cells.size, counters)
  ⟨log, out.1⟩

/-- The reading of a distribution under way: the bit address, the states still to be given (one
more than that), and the shares read, last first. -/
structure Reading where
  at' : Nat
  remaining : Nat
  shares : List Share

/-- The number of zero shares that a run of two-bit fields announces, and the address behind it. -/
def zeroRun (b : ByteArray) : Nat → Nat → Nat × Nat
  | 0, pos => (0, pos)
  | fuel + 1, pos =>
    match bitsAt b pos 2 with
    | 3 => let (n, pos) := zeroRun b fuel (pos + 2); (n + 3, pos)
    | n => (n, pos + 2)

/-- Read shares until all states are given; `symbols` bounds the number of shares. -/
def readShares (b : ByteArray) (symbols : Nat) : Nat → Reading → Except Fault Reading
  | 0, _ => .error .corrupted
  | fuel + 1, r =>
    if r.remaining ≤ 1 then .ok r
    else if symbols ≤ r.shares.length then .error .corrupted
    else
      let width := Nat.log2 r.remaining + 1
      let threshold := 1 <<< (width - 1)
      let spare := 2 * threshold - 1 - r.remaining
      let low := bitsAt b r.at' (width - 1)
      let (value, at') :=
        if low < spare then (low, r.at' + (width - 1))
        else
          let full := bitsAt b r.at' width
          (if threshold ≤ full then full - spare else full, r.at' + width)
      match value with
      | 0 => readShares b symbols fuel ⟨at', r.remaining - 1, none :: r.shares⟩
      | 1 =>
        let (zeros, at') := zeroRun b (8 * b.size + 8) at'
        if symbols ≤ r.shares.length + 1 + zeros ∧ r.remaining > 1 then .error .corrupted
        else readShares b symbols fuel
          ⟨at', r.remaining, List.replicate (zeros + 1) (some 0) ++ r.shares⟩
      | n + 1 =>
        if r.remaining ≤ n then .error .corrupted
        else readShares b symbols fuel ⟨at', r.remaining - n, some n :: r.shares⟩

/-- Read a distribution from `size` bytes at `start`: the table, and the number of bytes it took.
`symbols` and `maxLog` bound what it may use. -/
def readTable (data : ByteArray) (start size symbols maxLog : Nat) :
    Except Fault (Table × Nat) := do
  let b := data.extract start (start + size)
  let log := bitsAt b 0 4 + 5
  if log > 15 then throw .corrupted
  let r ← readShares b symbols (symbols + 2) ⟨4, 1 <<< log + 1, []⟩
  let used := (r.at' + 7) / 8
  if used > size ∨ log > maxLog then throw .corrupted
  return (build log r.shares.reverse, used)

end Depot.Zstd.Fse
