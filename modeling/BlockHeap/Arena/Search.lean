import BlockHeap.Arena.Block

/-!
# Searching for a free block

Each policy walks along the headers and takes a block that is free and large enough.
-/

namespace BlockHeap.Arena

variable {σ : Type} [Segment σ]

/-- Whether a block with header `tag` is free and has at least `size` bytes. -/
def fits (tag : Tag) (size : Nat) : Except Fault Bool :=
  return (← tag.isFree) && size ≤ tag.size

/-- The first block from `block` on that fits. A block of size 0 is the last one looked at. -/
def firstFit (stop size : Nat) : Nat → Nat → Action σ (Option Nat)
  | 0, _ => Action.fault .endless
  | steps + 1, block =>
    if stop ≤ block then return none
    else do
      let tag ← Action.load block
      if ← fits tag size then return some block
      else if tag.size = 0 then return none
      else firstFit stop size steps (Word.forward block tag.size)

/-- The better of the best block so far and one with `slack` bytes too many. -/
def closer (best : Option (Nat × Nat)) (block slack : Nat) : Option (Nat × Nat) :=
  match best with
  | some (other, least) => if slack < least then some (block, slack) else some (other, least)
  | none => some (block, slack)

/-- The block from `block` on that fits with the least slack, `best` being the best one before. -/
def bestFit (stop size : Nat) : Nat → Nat → Option (Nat × Nat) → Action σ (Option Nat)
  | 0, _, _ => Action.fault .endless
  | steps + 1, block, best =>
    if stop ≤ block then return best.map Prod.fst
    else do
      let tag ← Action.load block
      let fit ← fits tag size
      if fit && tag.size = size then return some block
      else
        let best := if fit then closer best block (tag.size - size) else best
        if tag.size = 0 then return best.map Prod.fst
        else bestFit stop size steps (Word.forward block tag.size) best

/-- The first block that fits on the way from `block` round to `origin`. -/
def lap (start stop size origin : Nat) : Nat → Nat → Action σ (Option Nat)
  | 0, _ => Action.fault .endless
  | steps + 1, block => do
    let tag ← Action.load block
    if ← fits tag size then return some block
    else
      let next := Word.forward block tag.size
      let next := if stop ≤ next then start else next
      if next = origin then return none
      else lap start stop size origin steps next

/-- Where a next-fit search starts: at the cursor, or at the first block if the cursor is not in
the arena. -/
def origin (h : Arena σ) (cursor : Option Nat) : Nat :=
  match cursor with
  | some block => if h.start ≤ block ∧ block < h.stop then block else h.start
  | none => h.start

def setCursor (cursor : Option Nat) : Action σ Unit :=
  Action.modify fun h => { h with placement := .nextFit cursor }

/-- The first block that fits in a lap from the cursor. The cursor moves there, or to where the lap
started if there is none. -/
def nextFit (cursor : Option Nat) (size : Nat) : Action σ (Option Nat) := do
  let h ← Action.get
  let origin := h.origin cursor
  let found ← lap h.start h.stop size origin h.walkLimit origin
  setCursor (some (found.getD origin))
  return found

/-- A free block of at least `size` bytes, as the policy chooses. -/
def find (size : Nat) : Action σ (Option Nat) := do
  let h ← Action.get
  match h.placement with
  | .firstFit => firstFit h.stop size h.walkLimit h.start
  | .nextFit cursor => nextFit cursor size
  | .bestFit => bestFit h.stop size h.walkLimit h.start none

/-- Moves a cursor that points into the `size` bytes after the header of `block` to `block`. -/
def pullCursor (block size : Nat) : Action σ Unit := do
  match (← Action.get).placement with
  | .nextFit (some cursor) =>
    if block < cursor then
      let stop ← Word.add block size
      if cursor < stop then setCursor (some block)
  | _ => return ()

/-- Forgets a cursor that is not below `stop`. -/
def clipCursor (stop : Nat) : Action σ Unit := do
  match (← Action.get).placement with
  | .nextFit (some cursor) => if stop ≤ cursor then setCursor none
  | _ => return ()

end BlockHeap.Arena
