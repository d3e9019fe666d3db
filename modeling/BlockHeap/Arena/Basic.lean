import BlockHeap.Notice

/-!
# Arenas and actions

An arena is a segment with its memory, laid out as a chain of blocks between two sentinels, the state
of the search for free blocks, and how much goes into the log. Block sizes and statuses are nowhere
but in the memory.

An action runs on an arena and replies with its result, the arena after it, and the events on the
way: each record that it logs, each request to the segment with its answer, and each boundary tag that
it touched outside the committed bytes. An action that faults keeps what it did before.

Details are logged with `Action.diag`, which looks at the verbosity first. What a notice says is worked
out by an action of its own, and only when the notice is logged.
-/

namespace BlockHeap

/-- The policy, and what it remembers between two searches. -/
inductive Placement where
  | firstFit
  | nextFit (cursor : Option Nat)
  | bestFit
deriving DecidableEq, Repr

namespace Placement

def ofPolicy : Policy → Placement
  | .firstFit => firstFit
  | .nextFit => nextFit none
  | .bestFit => bestFit

def policy : Placement → Policy
  | firstFit => .firstFit
  | nextFit _ => .nextFit
  | bestFit => .bestFit

/-- The block where the next search starts. -/
def cursor : Placement → Option Nat
  | nextFit cursor => cursor
  | _ => none

end Placement

structure Arena (σ : Type) where
  segment : σ
  memory : Memory
  placement : Placement
  chunkSize : Nat
  shrinkThreshold : Nat
  pageSize : Nat
  /-- The first block. -/
  start : Nat
  /-- The end sentinel, right after the last block. -/
  stop : Nat
  /-- The end sentinel's first place; the arena never shrinks below it. -/
  floor : Nat
  verbosity : Verbosity

/-- The number of bytes that the blocks take together. -/
def Arena.capacity {σ : Type} (h : Arena σ) : Nat :=
  h.stop - h.start

/-- More steps than a walk along the blocks can take. It visits only multiples of the block unit
below the end, so a longer one goes round in a circle. -/
def Arena.walkLimit {σ : Type} (h : Arena σ) : Nat :=
  h.stop / blockUnit + 2

inductive Event where
  | logged (record : Record)
  /-- The segment was asked for more bytes. -/
  | grow (bytes : Nat)
  /-- The segment was asked to take bytes back. -/
  | shrink (bytes : Nat)
  /-- The segment granted what it was asked, or refused. -/
  | answered (granted : Bool)
  /-- A boundary tag outside the committed bytes was read or written. -/
  | stray (address : Nat)
deriving DecidableEq, Repr

/-- What was logged, among events. -/
def Event.records (events : List Event) : List Record :=
  events.filterMap fun
    | .logged record => some record
    | _ => none

structure Reply (σ α : Type) where
  result : Except Fault α
  arena : Arena σ
  events : List Event

def Action (σ α : Type) : Type :=
  Arena σ → Reply σ α

namespace Action

variable {σ α β : Type}

@[inline] protected def pure (x : α) : Action σ α := fun h =>
  ⟨.ok x, h, []⟩

/-- Runs `m`, then `f` on its result unless `m` faulted; the events follow each other. -/
@[inline] protected def bind (m : Action σ α) (f : α → Action σ β) : Action σ β := fun h =>
  match m h with
  | ⟨.ok x, h, events⟩ =>
    let reply := f x h
    ⟨reply.result, reply.arena, events ++ reply.events⟩
  | ⟨.error fault, h, events⟩ => ⟨.error fault, h, events⟩

instance : Monad (Action σ) where
  pure := Action.pure
  bind := Action.bind

/-- A computation on words as an action. -/
@[inline] def ofExcept (x : Except Fault α) : Action σ α := fun h =>
  ⟨x, h, []⟩

instance : MonadLift (Except Fault) (Action σ) where
  monadLift := ofExcept

def fault (f : Fault) : Action σ α :=
  ofExcept (.error f)

def get : Action σ (Arena σ) := fun h =>
  ⟨.ok h, h, []⟩

def modify (f : Arena σ → Arena σ) : Action σ Unit := fun h =>
  ⟨.ok (), f h, []⟩

def log (severity : Severity) (notice : Notice) : Action σ Unit := fun h =>
  ⟨.ok (), h, [.logged ⟨severity, notice⟩]⟩

/-- Logs a notice at `level` if the arena's verbosity reaches it. Only then is the notice worked out;
a fault in doing so is a fault of the whole action. -/
def diag (level : Verbosity) (notice : Action σ Notice) : Action σ Unit := do
  if level.rank ≤ (← get).verbosity.rank then
    match level.severity? with
    | some severity => log severity (← notice)
    | none => return ()

section Segment

variable [Segment σ]

/-- The event of touching the tag at `a`, if it is not committed. -/
def strays (h : Arena σ) (a : Nat) : List Event :=
  if Segment.holds h.segment a wordSize then [] else [.stray a]

/-- The tag at `a`. -/
def load (a : Nat) : Action σ Tag := fun h =>
  ⟨.ok ⟨h.memory.word a⟩, h, strays h a⟩

/-- Writes `tag` at `a`. -/
def store (a : Nat) (tag : Tag) : Action σ Unit := fun h =>
  ⟨.ok (), { h with memory := h.memory.setWord a tag.bits }, strays h a⟩

/-- What follows a request to the segment: its warnings, and whether it was granted. -/
def echo (move : Segment.Move σ) : List Event :=
  move.warnings.map (fun w => .logged ⟨.warn, .undropped w⟩) ++ [.answered move.refusal.isNone]

/-- Asks the segment for more bytes; the answer is its refusal, if it refuses. -/
def grow (bytes : Nat) : Action σ (Option SegmentError) := fun h =>
  let move := Segment.grow bytes h.segment h.memory
  ⟨.ok move.refusal, { h with segment := move.segment, memory := move.memory },
    .grow bytes :: echo move⟩

/-- Asks the segment to take bytes back; the answer is its refusal, if it refuses. -/
def shrink (bytes : Nat) : Action σ (Option SegmentError) := fun h =>
  let move := Segment.shrink bytes h.segment h.memory
  ⟨.ok move.refusal, { h with segment := move.segment, memory := move.memory },
    .shrink bytes :: echo move⟩

end Segment

@[simp] theorem pure_apply (x : α) (h : Arena σ) : (pure x : Action σ α) h = ⟨.ok x, h, []⟩ := rfl

theorem bind_apply (m : Action σ α) (f : α → Action σ β) (h : Arena σ) :
    (m >>= f) h = match m h with
      | ⟨.ok x, h', events⟩ => ⟨(f x h').result, (f x h').arena, events ++ (f x h').events⟩
      | ⟨.error fault, h', events⟩ => ⟨.error fault, h', events⟩ := rfl

/-- A step that succeeds hands its result on. -/
theorem bind_of_ok {m : Action σ α} {f : α → Action σ β} {h h' : Arena σ} {x : α}
    {events : List Event} (hm : m h = ⟨.ok x, h', events⟩) :
    (m >>= f) h = ⟨(f x h').result, (f x h').arena, events ++ (f x h').events⟩ := by
  rw [bind_apply, hm]

/-- A step that faults ends the action. -/
theorem bind_of_error {m : Action σ α} {f : α → Action σ β} {h h' : Arena σ} {fault : Fault}
    {events : List Event} (hm : m h = ⟨.error fault, h', events⟩) :
    (m >>= f) h = ⟨.error fault, h', events⟩ := by
  rw [bind_apply, hm]

theorem bind_pure_id (m : Action σ α) : (m >>= fun x => pure (id x)) = m := by
  funext h
  rw [bind_apply]
  rcases m h with ⟨_ | x, h', events⟩ <;> simp

theorem bind_assoc_apply (m : Action σ α) {γ : Type} (f : α → Action σ β) (g : β → Action σ γ) :
    (m >>= f >>= g) = (m >>= fun x => f x >>= g) := by
  funext h
  simp only [bind_apply]
  rcases m h with ⟨_ | x, h', events⟩
  · rfl
  · rcases hf : f x h' with ⟨_ | y, h'', events'⟩ <;> simp [hf]

instance : LawfulMonad (Action σ) :=
  LawfulMonad.mk' (Action σ) (fun m => bind_pure_id m) (fun _ _ => rfl)
    (fun m f g => bind_assoc_apply m f g)

end Action
end BlockHeap
