import BlockHeap.Proofs.Session

/-!
# How actions are built

All that an operation does is a sequence of a few kinds of steps: it looks at the arena, computes with
words, touches tags, asks the segment, changes a field of the arena, or logs. `Built Asks m` says that
`m` is put together from such steps, none of which looks at the verbosity but to decide whether a notice
is worked out; the segment is asked only if `Asks`. What holds of every step holds of all operations
then, by induction on how they are built.
-/

namespace BlockHeap

/-- The arena with another verbosity. -/
def Arena.withVerbosity {σ : Type} (h : Arena σ) (level : Verbosity) : Arena σ :=
  { h with verbosity := level }

@[simp] lemma Arena.withVerbosity_withVerbosity {σ : Type} (h : Arena σ) (v w : Verbosity) :
    (h.withVerbosity v).withVerbosity w = h.withVerbosity w := rfl

namespace Action

variable {σ α β : Type}

/-- The notice can be worked out from any arena, and is the same at every verbosity. Tags may be read on
the way, but nothing else is left behind. -/
structure Gentle (notice : Action σ Notice) : Prop where
  yields : ∀ h : Arena σ, ∃ n, ∀ v, Yields notice (h.withVerbosity v) n (h.withVerbosity v)
  strays : ∀ h, ∀ e ∈ (notice h).events, ∃ a, e = .stray a

lemma Gentle.pure (n : Notice) : Gentle (Pure.pure n : Action σ Notice) :=
  ⟨fun _ => ⟨n, fun _ => ⟨rfl, rfl⟩⟩, fun _ _ he => absurd he List.not_mem_nil⟩

/-- A computation on words that does not fault. -/
lemma Gentle.lift {e : Except Fault α} {x : α} (he : e = .ok x) (f : α → Notice) :
    Gentle (do return f (← e) : Action σ Notice) := by
  subst he
  exact .pure (f x)

variable [Segment σ]

lemma Gentle.size (block : Nat) (f : Nat → Notice) :
    Gentle (do return f (← Block.size block) : Action σ Notice) := by
  refine ⟨fun h => ⟨f (Tag.size ⟨h.memory.word block⟩), fun v =>
    (Yields.size _ block).bind ⟨rfl, rfl⟩⟩, fun h e he => ?_⟩
  have hevents : (do return f (← Block.size block) : Action σ Notice) h =
      ⟨.ok (f (Tag.size ⟨h.memory.word block⟩)), h, Action.strays h block ++ [] ++ []⟩ := rfl
  rw [hevents, List.append_nil, List.append_nil] at he
  unfold Action.strays at he
  split at he
  next => exact absurd he List.not_mem_nil
  next => exact ⟨block, List.mem_singleton.mp he⟩

inductive Built (Asks : Prop) : {α : Type} → Action σ α → Prop where
  | pure {α : Type} (x : α) : Built Asks (Pure.pure x)
  | fault {α : Type} (f : Fault) : Built Asks (Action.fault f : Action σ α)
  | bind {α β : Type} {m : Action σ α} {f : α → Action σ β} (first : Built Asks m)
      (rest : ∀ x, Built Asks (f x)) : Built Asks (m >>= f)
  /-- What follows a computation on words may count on its result. -/
  | words {α β : Type} {e : Except Fault α} {f : α → Action σ β}
      (rest : ∀ x, e = .ok x → Built Asks (f x)) : Built Asks (liftM e >>= f)
  /-- What is made of the arena is made of all of it but the verbosity. -/
  | look {α : Type} {f : Arena σ → Action σ α} (blind : ∀ h v, f (h.withVerbosity v) = f h)
      (rest : ∀ h, Built Asks (f h)) : Built Asks (Action.get >>= f)
  | modify {g : Arena σ → Arena σ}
      (blind : ∀ h v, g (h.withVerbosity v) = (g h).withVerbosity v) :
      Built Asks (Action.modify g)
  | warn (n : Notice) : Built Asks (Action.log .warn n)
  | diag (level : Verbosity) {notice : Action σ Notice} (gentle : Gentle notice) :
      Built Asks (Action.diag level notice)
  | load (a : Nat) : Built Asks (Action.load a)
  | store (a : Nat) (tag : Tag) : Built Asks (Action.store a tag)
  | grow (asks : Asks) (bytes : Nat) : Built Asks (Action.grow bytes)
  | shrink (asks : Asks) (bytes : Nat) : Built Asks (Action.shrink bytes)

namespace Built

variable {Asks : Prop}

lemma note (level : Verbosity) (n : Notice) :
    Built Asks (Action.diag level (Pure.pure n) : Action σ Unit) :=
  diag level (.pure n)

lemma lift (e : Except Fault α) : Built Asks (liftM e : Action σ α) := by
  rw [← bind_pure (liftM e : Action σ α)]
  exact words fun x _ => pure x

lemma ite {p : Prop} [Decidable p] {m m' : Action σ α} (hm : p → Built Asks m)
    (hm' : ¬p → Built Asks m') : Built Asks (if p then m else m') := by
  split
  next hp => exact hm hp
  next hp => exact hm' hp

lemma size (block : Nat) : Built Asks (Block.size block : Action σ Nat) :=
  (load block).bind fun _ => pure _

lemma next (block : Nat) : Built Asks (Block.next block : Action σ Nat) :=
  (size block).bind fun _ => pure _

lemma tagBefore (block : Nat) : Built Asks (Block.tagBefore block : Action σ Tag) :=
  load _

lemma previous (block : Nat) : Built Asks (Block.previous block : Action σ Nat) :=
  (tagBefore block).bind fun _ => pure _

lemma mark (block size : Nat) (status : Status) :
    Built Asks (Block.mark block size status : Action σ Unit) :=
  words fun tag _ => (store block tag).bind fun _ => store _ tag

lemma setCursor (cursor : Option Nat) : Built Asks (Arena.setCursor cursor : Action σ Unit) :=
  modify fun _ _ => rfl

lemma setStop (stop : Nat) :
    Built Asks (Action.modify fun h => { h with stop := stop } : Action σ Unit) :=
  modify fun _ _ => rfl

lemma write (f : Memory → Memory) :
    Built Asks (Action.modify fun h => { h with memory := f h.memory } : Action σ Unit) :=
  modify fun _ _ => rfl

lemma pullCursor (block size : Nat) :
    Built Asks (Arena.pullCursor block size : Action σ Unit) := by
  unfold Arena.pullCursor
  refine look (fun _ _ => rfl) fun h => ?_
  split
  next cursor =>
    refine ite (fun _ => words fun stop _ => ?_) fun _ => pure _
    exact ite (fun _ => setCursor _) fun _ => pure _
  next => exact pure _

lemma clipCursor (stop : Nat) : Built Asks (Arena.clipCursor stop : Action σ Unit) := by
  unfold Arena.clipCursor
  refine look (fun _ _ => rfl) fun h => ?_
  split
  next cursor => exact ite (fun _ => setCursor _) fun _ => pure _
  next => exact pure _

lemma firstFit (stop size steps block : Nat) :
    Built Asks (Arena.firstFit stop size steps block : Action σ _) := by
  induction steps generalizing block with
  | zero => exact fault _
  | succ steps ih =>
    unfold Arena.firstFit
    refine ite (fun _ => pure _) fun _ => (load block).bind fun tag => words fun fit _ => ?_
    exact ite (fun _ => pure _) fun _ => ite (fun _ => pure _) fun _ => ih _

lemma bestFit (stop size steps block : Nat) (best : Option (Nat × Nat)) :
    Built Asks (Arena.bestFit stop size steps block best : Action σ _) := by
  induction steps generalizing block best with
  | zero => exact fault _
  | succ steps ih =>
    unfold Arena.bestFit
    refine ite (fun _ => pure _) fun _ => (load block).bind fun tag => words fun fit _ => ?_
    exact ite (fun _ => pure _) fun _ => ite (fun _ => pure _) fun _ => ih _ _

lemma lap (start stop size origin steps block : Nat) :
    Built Asks (Arena.lap start stop size origin steps block : Action σ _) := by
  induction steps generalizing block with
  | zero => exact fault _
  | succ steps ih =>
    unfold Arena.lap
    refine (load block).bind fun tag => words fun fit _ => ?_
    exact ite (fun _ => pure _) fun _ => ite (fun _ => pure _) fun _ => ih _

lemma find (size : Nat) : Built Asks (Arena.find size : Action σ _) := by
  unfold Arena.find
  refine look (fun _ _ => rfl) fun h => ?_
  cases h.placement with
  | firstFit => exact firstFit _ _ _ _
  | bestFit => exact bestFit _ _ _ _ _
  | nextFit cursor =>
    unfold Arena.nextFit
    refine look (fun _ _ => rfl) fun h => (lap _ _ _ _ _ _).bind fun found => ?_
    exact (setCursor _).bind fun _ => pure _

/-- The sum that a split is preceded by has room for the rest. -/
lemma carve (block size : Nat) : Built Asks (Arena.carve block size : Action σ Unit) := by
  unfold Arena.carve
  refine (Built.size block).bind fun total => words fun least hleast => ?_
  refine ite (fun hfits => ?_) fun _ => mark _ _ _
  obtain rfl := Word.add_ok hleast
  have hrest : Word.sub total size = .ok (total - size) := Word.sub_of_le (by omega)
  refine (diag _ (.lift hrest _)).bind fun _ => ?_
  exact (mark _ _ _).bind fun _ => mark _ _ _

lemma mergeBefore (block size : Nat) :
    Built Asks (Arena.mergeBefore block size : Action σ _) := by
  unfold Arena.mergeBefore
  refine (tagBefore block).bind fun before => words fun idle _ => ite (fun _ => ?_) fun _ => pure _
  refine (previous block).bind fun merged => words fun total _ => (note _ _).bind fun _ => ?_
  exact (mark _ _ _).bind fun _ => pure _

lemma mergeAfter (block size : Nat) :
    Built Asks (Arena.mergeAfter block size : Action σ _) := by
  unfold Arena.mergeAfter
  refine (next block).bind fun next => (load next).bind fun after => words fun idle _ => ?_
  refine ite (fun _ => words fun total _ => (note _ _).bind fun _ => ?_) fun _ => pure _
  exact (mark _ _ _).bind fun _ => pure _

lemma annex : Built Asks (Arena.annex : Action σ _) := by
  have hrest : ∀ (last : Nat × Nat) (stop : Nat), Built Asks (do
      Block.mark last.1 last.2 .free
      Action.store stop .sentinel
      Action.modify fun h => { h with stop := stop }
      return last : Action σ (Nat × Nat)) := fun last stop =>
    (mark _ _ _).bind fun _ => (store _ _).bind fun _ => (setStop stop).bind fun _ => pure last
  unfold Arena.annex
  refine look (fun _ _ => rfl) fun h => words fun stop _ => words fun gained _ => ?_
  refine (tagBefore _).bind fun before => words fun idle _ => ite (fun _ => ?_) fun _ => ?_
  · refine (previous _).bind fun block => words fun total _ => ?_
    exact (pure (block, total)).bind fun last => hrest last stop
  · exact (pure (h.stop, gained)).bind fun last => hrest last stop

/-- What trimming does once the bytes were taken back. -/
lemma cut (block keep bytes stop : Nat) : Built Asks (do
    Action.diag .verbose (return .trimmed bytes)
    Action.modify fun h => { h with stop := stop }
    if keep > 0 then Block.mark block keep .free
    Action.store stop .sentinel
    Arena.clipCursor stop : Action σ Unit) := by
  have hlast : Built Asks (do
      Action.store stop .sentinel
      Arena.clipCursor stop : Action σ Unit) := (store _ _).bind fun _ => clipCursor _
  refine (note _ _).bind fun _ => (setStop stop).bind fun _ => ?_
  exact ite (fun _ => (mark _ _ _).bind fun _ => hlast) fun _ => hlast

lemma gather (block : Nat) : Built Asks (Arena.gather block : Action σ _) := by
  unfold Arena.gather
  refine (size block).bind fun size => (mark _ _ _).bind fun _ => ?_
  refine (mergeBefore _ _).bind fun ⟨block, size⟩ => (mergeAfter _ _).bind fun size => ?_
  exact (pullCursor _ _).bind fun _ => pure _

lemma growInPlace (block available new : Nat) :
    Built Asks (Arena.growInPlace block available new : Action σ Unit) := by
  unfold Arena.growInPlace
  refine (note _ _).bind fun _ => (mark _ _ _).bind fun _ => ?_
  exact (pullCursor _ _).bind fun _ => carve _ _

section Asking

variable (asks : Asks)

include asks

lemma enlargeWithin (size rounds : Nat) :
    Built Asks (Arena.enlargeWithin size rounds : Action σ _) := by
  induction rounds with
  | zero => exact fault _
  | succ rounds ih =>
    unfold Arena.enlargeWithin
    refine look (fun _ _ => rfl) fun h => (grow asks _).bind fun refusal => ?_
    cases refusal with
    | some error => exact (warn _).bind fun _ => pure _
    | none =>
      refine annex.bind fun _ => (note _ _).bind fun _ => ?_
      exact ite (fun _ => pure _) fun _ => ih

lemma trim (block size : Nat) : Built Asks (Arena.trim block size : Action σ Unit) := by
  unfold Arena.trim
  refine look (fun _ _ => rfl) fun h => words fun reach _ => ite (fun _ => pure _) fun _ => ?_
  refine words fun bytes _ => ite (fun _ => pure _) fun _ => (shrink asks _).bind fun refusal => ?_
  cases refusal with
  | some error => exact warn _
  | none => exact cut _ _ _ _

lemma release (block : Nat) : Built Asks (Arena.release block : Action σ Unit) := by
  rw [Arena.release_eq]
  exact (gather block).bind fun _ => trim asks _ _

lemma obtain (size : Nat) : Built Asks (Arena.obtain size : Action σ _) := by
  unfold Arena.obtain
  refine (find size).bind fun found => ?_
  cases found with
  | none => exact enlargeWithin asks _ _
  | some block => exact pure _

lemma allocate (size : Nat) : Built Asks (Arena.allocate size : Action σ _) := by
  unfold Arena.allocate
  refine (note _ _).bind fun _ => ite (fun _ => pure _) fun _ => ?_
  cases Block.sizeFor size with
  | none => exact pure _
  | some blockSize =>
    refine (obtain asks blockSize).bind fun found => ?_
    cases found with
    | none => exact pure _
    | some block =>
      refine (carve block blockSize).bind fun _ => ?_
      exact (diag _ (.size block _)).bind fun _ => pure _

lemma allocateZeroed (count size : Nat) :
    Built Asks (Arena.allocateZeroed count size : Action σ _) := by
  unfold Arena.allocateZeroed
  refine (note _ _).bind fun _ => ite (fun _ => ?_) fun _ => pure _
  refine (allocate asks _).bind fun found => ?_
  cases found with
  | none => exact pure _
  | some payload =>
    exact (write fun m => m.fill payload (payload + count * size) 0).bind fun _ => pure _

lemma free (payload : Option Nat) : Built Asks (Arena.free payload : Action σ Unit) := by
  unfold Arena.free
  refine (note _ _).bind fun _ => ?_
  cases payload with
  | none => exact pure _
  | some address =>
    refine (load _).bind fun tag => words fun idle _ => ?_
    exact ite (fun _ => warn _) fun _ => release asks _

lemma shrinkInPlace (block old new : Nat) :
    Built Asks (Arena.shrinkInPlace block old new : Action σ Unit) := by
  unfold Arena.shrinkInPlace
  refine (note _ _).bind fun _ => (mark _ _ _).bind fun _ => ?_
  exact (mark _ _ _).bind fun _ => release asks _

lemma move (payload old size : Nat) :
    Built Asks (Arena.move payload old size : Action σ _) := by
  unfold Arena.move
  refine (allocate asks size).bind fun found => ?_
  cases found with
  | none => exact pure _
  | some target =>
    refine words fun kept _ => (write fun m => m.copy payload target (min kept size)).bind fun _ => ?_
    exact (free asks _).bind fun _ => pure _

lemma resize (payload : Option Nat) (size : Nat) :
    Built Asks (Arena.resize payload size : Action σ _) := by
  unfold Arena.resize
  refine (note _ _).bind fun _ => ?_
  cases payload with
  | none => exact allocate asks size
  | some address =>
    refine ite (fun _ => (free asks _).bind fun _ => pure _) fun _ => ?_
    refine (Built.size _).bind fun old => ?_
    cases Block.sizeFor size with
    | none => exact pure _
    | some new =>
      refine ite (fun _ => pure _) fun _ => ite (fun _ => ?_) fun _ => ?_
      · exact (shrinkInPlace asks _ _ _).bind fun _ => pure _
      · refine (next _).bind fun next => (load _).bind fun after => words fun available _ => ?_
        refine words fun idle _ => ite (fun _ => ?_) fun _ => move asks _ _ _
        exact (growInPlace _ _ _).bind fun _ => pure _

lemma action (c : Call) : Built Asks (c.action : Action σ _) := by
  cases c with
  | allocate size => exact allocate asks size
  | allocateZeroed count size => exact allocateZeroed asks count size
  | resize payload size => exact resize asks payload size
  | free payload => exact (free asks payload).bind fun _ => pure _

end Asking
end Built
end Action
end BlockHeap
