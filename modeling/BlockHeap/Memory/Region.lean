/-!
# Regions

A region of height `h` holds a byte at each of `2 ^ h` addresses, as a binary tree in which a run
of equal bytes is a single leaf. Its bytes are told apart by the low `h` bits of an address, the
highest of them first.

`Region.fill` and `Region.tabulate` change the bytes of an interval. They get the region's place as
`p`: it covers the addresses from `p * 2 ^ h` up to `(p + 1) * 2 ^ h`.
-/

namespace BlockHeap

inductive Region where
  | uniform (byte : UInt8)
  | split (low high : Region)

namespace Region

def read : Region → Nat → Nat → UInt8
  | uniform byte, _, _ => byte
  | split low high, height, a =>
    if a.testBit (height - 1) then high.read (height - 1) a else low.read (height - 1) a

def low : Region → Region
  | uniform byte => uniform byte
  | split low _ => low

def high : Region → Region
  | uniform byte => uniform byte
  | split _ high => high

/-- Two halves as one region. -/
def join : Region → Region → Region
  | uniform a, uniform b => if a = b then uniform a else split (uniform a) (uniform b)
  | low, high => split low high

/-- Sets the bytes from `lo` up to `hi` to `byte`. -/
def fill (lo hi : Nat) (byte : UInt8) : Nat → Nat → Region → Region
  | 0, p, r => if lo ≤ p ∧ p < hi then uniform byte else r
  | height + 1, p, r =>
    if p < lo >>> (height + 1) ∨ (hi - 1) >>> (height + 1) < p then r
    else if lo ≤ p <<< (height + 1) ∧ (p + 1) <<< (height + 1) ≤ hi then uniform byte
    else join (fill lo hi byte height (2 * p) r.low) (fill lo hi byte height (2 * p + 1) r.high)

/-- Sets the byte at each `a` from `lo` up to `hi` to `f a`. -/
def tabulate (lo hi : Nat) (f : Nat → UInt8) : Nat → Nat → Region → Region
  | 0, p, r => if lo ≤ p ∧ p < hi then uniform (f p) else r
  | height + 1, p, r =>
    if p < lo >>> (height + 1) ∨ (hi - 1) >>> (height + 1) < p then r
    else join (tabulate lo hi f height (2 * p) r.low) (tabulate lo hi f height (2 * p + 1) r.high)

end Region
end BlockHeap
