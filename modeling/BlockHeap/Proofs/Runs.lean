import BlockHeap.Arena.Block
import BlockHeap.Proofs.Chain

/-!
# Runs of actions

`m.Yields h x h'` says that the action `m` runs from `h` to `h'` without a fault and answers `x`.
`m.Runs h x h' asked` says also that it asks the segment for `asked` and nothing else, and that it
touches committed tags only. One lemma for each primitive action and one for `bind` take longer
actions apart.
-/

namespace BlockHeap

section Except

variable {ε ε' α β : Type}

lemma ok_of_bind {e : Except ε α} {f : α → Except ε β} {y : β} (h : (e >>= f) = .ok y) :
    ∃ x, e = .ok x ∧ f x = .ok y := by
  cases e with
  | error _ => exact absurd h (by simp [bind, Except.bind])
  | ok x => exact ⟨x, rfl, h⟩

lemma error_of_bind {e : Except ε α} {f : α → Except ε β} {x : ε} (h : (e >>= f) = .error x) :
    e = .error x ∨ ∃ a, e = .ok a ∧ f a = .error x := by
  cases e with
  | error _ => exact Or.inl (congrArg Except.error (Except.error.inj h))
  | ok a => exact Or.inr ⟨a, rfl, h⟩

lemma error_of_mapError {e : Except ε α} {f : ε → ε'} {x : ε'} (h : e.mapError f = .error x) :
    ∃ y, e = .error y ∧ f y = x := by
  cases e with
  | error y => exact ⟨y, rfl, Except.error.inj h⟩
  | ok _ => exact absurd h (by simp [Except.mapError])

lemma ok_of_mapError {e : Except ε α} {f : ε → ε'} {x : α} (h : e.mapError f = .ok x) :
    e = .ok x := by
  cases e with
  | error _ => exact absurd h (by simp [Except.mapError])
  | ok y => exact congrArg Except.ok (Except.ok.inj h)

lemma ok_of_toOption {e : Except ε α} {x : α} (h : e.toOption = some x) : e = .ok x := by
  cases e with
  | error _ => exact absurd h nofun
  | ok y => exact congrArg Except.ok (Option.some.inj h)

end Except

/-- The requests to the segment among events. -/
def Event.requests (events : List Event) : List Event :=
  events.filter fun
    | .grow _ | .shrink _ => true
    | _ => false

@[simp] lemma Event.requests_nil : Event.requests [] = [] := rfl

@[simp] lemma Event.requests_append (xs ys : List Event) :
    Event.requests (xs ++ ys) = Event.requests xs ++ Event.requests ys :=
  List.filter_append xs ys

namespace Arena

variable {σ : Type}

def withMemory (h : Arena σ) (m : Memory) : Arena σ :=
  { h with memory := m }

def withPlacement (h : Arena σ) (p : Placement) : Arena σ :=
  { h with placement := p }

section Fields

variable (h : Arena σ) (m m' : Memory) (p : Placement)

@[simp] lemma withMemory_memory : (h.withMemory m).memory = m := rfl
@[simp] lemma withMemory_segment : (h.withMemory m).segment = h.segment := rfl
@[simp] lemma withMemory_placement : (h.withMemory m).placement = h.placement := rfl
@[simp] lemma withMemory_start : (h.withMemory m).start = h.start := rfl
@[simp] lemma withMemory_stop : (h.withMemory m).stop = h.stop := rfl
@[simp] lemma withMemory_floor : (h.withMemory m).floor = h.floor := rfl
@[simp] lemma withMemory_withMemory : (h.withMemory m).withMemory m' = h.withMemory m' := rfl
@[simp] lemma withPlacement_memory : (h.withPlacement p).memory = h.memory := rfl
@[simp] lemma withPlacement_segment : (h.withPlacement p).segment = h.segment := rfl
@[simp] lemma withPlacement_placement : (h.withPlacement p).placement = p := rfl
@[simp] lemma withPlacement_start : (h.withPlacement p).start = h.start := rfl
@[simp] lemma withPlacement_stop : (h.withPlacement p).stop = h.stop := rfl
@[simp] lemma withPlacement_floor : (h.withPlacement p).floor = h.floor := rfl

end Fields

/-- The arena after its segment answered a request. -/
def answered (h : Arena σ) (move : Segment.Move σ) : Arena σ :=
  { h with segment := move.segment, memory := move.memory }

/-- What no operation changes. -/
structure Akin (h h' : Arena σ) : Prop where
  start : h'.start = h.start
  floor : h'.floor = h.floor
  chunkSize : h'.chunkSize = h.chunkSize
  shrinkThreshold : h'.shrinkThreshold = h.shrinkThreshold
  policy : h'.placement.policy = h.placement.policy

lemma Akin.refl (h : Arena σ) : h.Akin h :=
  ⟨rfl, rfl, rfl, rfl, rfl⟩

lemma Akin.trans {h h₁ h₂ : Arena σ} (a : h.Akin h₁) (b : h₁.Akin h₂) : h.Akin h₂ :=
  ⟨b.start.trans a.start, b.floor.trans a.floor, b.chunkSize.trans a.chunkSize,
    b.shrinkThreshold.trans a.shrinkThreshold, b.policy.trans a.policy⟩

end Arena

namespace Action

variable {σ α β : Type}

lemma reply_eq {m : Action σ α} {h h₁ : Arena σ} {x : α} (hresult : (m h).result = .ok x)
    (harena : (m h).arena = h₁) : m h = ⟨.ok x, h₁, (m h).events⟩ := by
  rcases hr : m h with ⟨result, arena, events⟩
  rw [hr] at hresult harena
  simp only at hresult harena
  rw [hresult, harena]

lemma result_of_error {m : Action σ α} {f : α → Action σ β} {h : Arena σ} {fault : Fault}
    (hm : (m h).result = .error fault) : ((m >>= f) h).result = .error fault := by
  rcases hr : m h with ⟨result, arena, events⟩
  rw [hr] at hm
  obtain rfl : result = .error fault := hm
  rw [bind_of_error hr]

lemma get_bind (f : Arena σ → Action σ α) (h : Arena σ) : (get >>= f) h = f h h := rfl

/-- What follows a request is not another one, and touches no tag. -/
lemma requests_echo (move : Segment.Move σ) : Event.requests (echo move) = [] := by
  unfold echo
  rw [Event.requests_append, Event.requests, List.filter_map]
  simp [Event.requests]

lemma stray_echo (move : Segment.Move σ) (a : Nat) : .stray a ∉ echo move := by
  simp [echo]

/-- The action answers `x` and leaves the arena as `h'`. -/
def Yields (m : Action σ α) (h : Arena σ) (x : α) (h' : Arena σ) : Prop :=
  (m h).result = .ok x ∧ (m h).arena = h'

namespace Yields

variable {m : Action σ α} {f : α → Action σ β} {h h' h₁ h₂ : Arena σ} {x y : α} {z : β}

lemma bind (hm : Yields m h x h₁) (hf : Yields (f x) h₁ z h₂) : Yields (m >>= f) h z h₂ := by
  unfold Yields
  rw [bind_of_ok (reply_eq hm.1 hm.2)]
  exact hf

lemma step (x : α) (hm : Yields m h x h) (hf : Yields (f x) h z h₁) : Yields (m >>= f) h z h₁ :=
  hm.bind hf

lemma result_bind (hm : Yields m h x h₁) : ((m >>= f) h).result = (f x h₁).result := by
  rw [bind_of_ok (reply_eq hm.1 hm.2)]

lemma unique (hx : Yields m h x h₁) (hy : Yields m h y h₂) : x = y ∧ h₁ = h₂ :=
  ⟨Except.ok.inj (hx.1.symm.trans hy.1), hx.2.symm.trans hy.2⟩

/-- The two parts of a sequence that came to its end. -/
lemma of_bind (hb : Yields (m >>= f) h z h') : ∃ x h₁, Yields m h x h₁ ∧ Yields (f x) h₁ z h' := by
  unfold Yields at hb
  rcases hrun : m h with ⟨fault | x, h₁, events⟩
  · rw [bind_of_error hrun] at hb
    exact absurd hb.1 nofun
  · rw [bind_of_ok hrun] at hb
    exact ⟨x, h₁, ⟨by rw [hrun], by rw [hrun]⟩, hb⟩

lemma step_iff (hm : Yields m h x h) : Yields (m >>= f) h z h' ↔ Yields (f x) h z h' := by
  refine ⟨fun hb => ?_, hm.step x⟩
  obtain ⟨y, h₁, hy, hf⟩ := hb.of_bind
  obtain ⟨rfl, rfl⟩ := hm.unique hy
  exact hf

lemma lift {e : Except Fault α} (he : e = .ok x) (h : Arena σ) :
    Yields (liftM e : Action σ α) h x h :=
  ⟨he, rfl⟩

lemma log (severity : Severity) (n : Notice) (h : Arena σ) :
    Yields (Action.log severity n) h () h :=
  ⟨rfl, rfl⟩

/-- Whether or not it is logged, a notice that can be worked out leaves the arena as it is. -/
lemma diag (level : Verbosity) {notice : Action σ Notice} {n : Notice}
    (hn : Yields notice h n h) : Yields (Action.diag level notice) h () h := by
  unfold Action.diag
  refine step h ⟨rfl, rfl⟩ ?_
  split
  next =>
    cases level.severity? with
    | none => exact ⟨rfl, rfl⟩
    | some severity => exact hn.step n (log severity n h)
  next => exact ⟨rfl, rfl⟩

lemma note (level : Verbosity) (n : Notice) (h : Arena σ) :
    Yields (Action.diag level (Pure.pure n)) h () h :=
  diag level ⟨rfl, rfl⟩

section Reads

variable [Segment σ]

/-! Tags are read whatever the memory holds. -/

lemma load (h : Arena σ) (a : Nat) : Yields (Action.load a) h ⟨h.memory.word a⟩ h :=
  ⟨rfl, rfl⟩

lemma size (h : Arena σ) (b : Nat) :
    Yields (Block.size b) h (Tag.size ⟨h.memory.word b⟩) h :=
  ⟨rfl, rfl⟩

lemma next (h : Arena σ) (b : Nat) :
    Yields (Block.next b) h (Word.forward b (Tag.size ⟨h.memory.word b⟩)) h :=
  ⟨rfl, rfl⟩

lemma tagBefore (h : Arena σ) (b : Nat) :
    Yields (Block.tagBefore b) h ⟨h.memory.word (Word.backward b wordSize)⟩ h :=
  ⟨rfl, rfl⟩

lemma previous (h : Arena σ) (b : Nat) :
    Yields (Block.previous b) h
      (Word.backward b (Tag.size ⟨h.memory.word (Word.backward b wordSize)⟩)) h :=
  ⟨rfl, rfl⟩

end Reads

end Yields

variable [Segment σ]

/-- The action runs to its end. The one tag outside the committed bytes that it may touch is a start
sentinel below the segment's start. -/
structure Runs (m : Action σ α) (h : Arena σ) (x : α) (h' : Arena σ) (asked : List Event) :
    Prop where
  result : (m h).result = .ok x
  arena : (m h).arena = h'
  requests : Event.requests (m h).events = asked
  committed : ∀ a, .stray a ∈ (m h).events → a + wordSize = h.start ∧ a < Segment.start h.segment
  start : h'.start = h.start
  base : Segment.start h'.segment = Segment.start h.segment

namespace Runs

variable {m : Action σ α} {f : α → Action σ β} {h h₁ h₂ : Arena σ} {x : α} {y : β}
  {asked asked₁ asked₂ : List Event}

theorem bind (hm : Runs m h x h₁ asked₁) (hf : Runs (f x) h₁ y h₂ asked₂) :
    Runs (m >>= f) h y h₂ (asked₁ ++ asked₂) := by
  obtain ⟨hresult, harena, hasked, hcommitted, hstart, hbase⟩ := hm
  have hbind := bind_of_ok (f := f) (reply_eq hresult harena)
  constructor
  · rw [hbind]
    exact hf.result
  · rw [hbind]
    exact hf.arena
  · rw [hbind]
    simp only [Event.requests_append, hasked, hf.requests]
  · intro a ha
    rw [hbind] at ha
    rcases List.mem_append.mp ha with ha | ha
    · exact hcommitted a ha
    · have := hf.committed a ha
      rwa [hstart, hbase] at this
  · rw [hf.start, hstart]
  · rw [hf.base, hbase]

/-- A fault after a run ends the whole action. -/
lemma bindError {fault : Fault} (hm : Runs m h x h₁ asked) (hf : (f x h₁).result = .error fault) :
    ((m >>= f) h).result = .error fault := by
  rw [bind_of_ok (reply_eq hm.result hm.arena)]
  exact hf

theorem andThen (hm : Runs m h x h₁ []) (hf : Runs (f x) h₁ y h₂ asked) :
    Runs (m >>= f) h y h₂ asked :=
  hm.bind hf

theorem thenQuiet (hm : Runs m h x h₁ asked) (hf : Runs (f x) h₁ y h₂ []) :
    Runs (m >>= f) h y h₂ asked := by
  have hrun := hm.bind hf
  rwa [List.append_nil] at hrun

lemma pure (x : α) (h : Arena σ) : Runs (Pure.pure x : Action σ α) h x h [] :=
  ⟨rfl, rfl, rfl, by simp, rfl, rfl⟩

lemma get (h : Arena σ) : Runs Action.get h h h [] :=
  ⟨rfl, rfl, rfl, by simp [Action.get], rfl, rfl⟩

lemma log (severity : Severity) (n : Notice) (h : Arena σ) :
    Runs (Action.log severity n) h () h [] :=
  ⟨rfl, rfl, rfl, by simp [Action.log], rfl, rfl⟩

/-- Whether or not it is logged, a notice that can be worked out leaves everything as it is. -/
lemma diag (level : Verbosity) {notice : Action σ Notice} {n : Notice}
    (hn : Runs notice h n h []) : Runs (Action.diag level notice) h () h [] := by
  unfold Action.diag
  apply (get h).andThen
  split
  next =>
    cases level.severity? with
    | none => exact pure () h
    | some severity => exact hn.andThen (log severity n h)
  next => exact pure () h

lemma note (level : Verbosity) (n : Notice) (h : Arena σ) :
    Runs (Action.diag level (Pure.pure n)) h () h [] :=
  diag level (pure n h)

lemma modify {f : Arena σ → Arena σ} (hstart : (f h).start = h.start)
    (hbase : Segment.start (f h).segment = Segment.start h.segment) :
    Runs (Action.modify f) h () (f h) [] :=
  ⟨rfl, rfl, rfl, by simp [Action.modify], hstart, hbase⟩

lemma lift {e : Except Fault α} (he : e = .ok x) (h : Arena σ) :
    Runs (liftM e : Action σ α) h x h [] :=
  ⟨he, rfl, rfl, by simp [liftM, monadLift, MonadLift.monadLift, Action.ofExcept], rfl, rfl⟩

lemma grow (bytes : Nat)
    (hbase : Segment.start (Segment.grow bytes h.segment h.memory).segment =
      Segment.start h.segment) :
    Runs (Action.grow bytes) h (Segment.grow bytes h.segment h.memory).refusal
      (h.answered (Segment.grow bytes h.segment h.memory)) [.grow bytes] :=
  ⟨rfl, rfl, congrArg (_ :: ·) (requests_echo _), by simp [Action.grow, stray_echo], rfl, hbase⟩

lemma shrink (bytes : Nat)
    (hbase : Segment.start (Segment.shrink bytes h.segment h.memory).segment =
      Segment.start h.segment) :
    Runs (Action.shrink bytes) h (Segment.shrink bytes h.segment h.memory).refusal
      (h.answered (Segment.shrink bytes h.segment h.memory)) [.shrink bytes] :=
  ⟨rfl, rfl, congrArg (_ :: ·) (requests_echo _), by simp [Action.shrink, stray_echo], rfl, hbase⟩

lemma yields (hm : Runs m h x h₁ asked) : Yields m h x h₁ :=
  ⟨hm.result, hm.arena⟩

end Runs
end Action

/-- The arena lies in its segment, and the segment below the end of the address space. -/
structure Arena.Sited {σ : Type} [Segment σ] (h : Arena σ) : Prop where
  aligned : h.start % blockUnit = 0
  base_lt : Segment.start h.segment < h.start
  stop_lt : Segment.stop h.segment < Word.limit

namespace Arena.Sited

variable {σ : Type} [Segment σ] {h : Arena σ}

lemma le_start (hs : h.Sited) : blockUnit ≤ h.start := by
  have h0 := hs.aligned
  have h1 := hs.base_lt
  simp only [blockUnit] at h0 ⊢
  omega

/-- Only the start sentinel can lie outside the committed bytes, if the block after it does not. -/
lemma strays {a : Nat} (hs : h.Sited) (hlo : h.start ≤ a ∨ a + wordSize = h.start)
    (hhi : a + wordSize ≤ Segment.stop h.segment) {b : Nat} (hb : .stray b ∈ Action.strays h a) :
    b + wordSize = h.start ∧ b < Segment.start h.segment := by
  have hbase := hs.base_lt
  unfold Action.strays at hb
  split at hb
  next => simp at hb
  next hheld =>
    have hba : b = a := by simpa using hb
    subst hba
    have hlow : ¬Segment.start h.segment ≤ b := by
      intro hle
      apply hheld
      unfold Segment.holds
      rw [Bool.and_eq_true, decide_eq_true_eq, decide_eq_true_eq]
      exact ⟨hle, hhi⟩
    rcases hlo with hlo | hlo
    · omega
    · exact ⟨hlo, by omega⟩

theorem load_runs {a : Nat} (hs : h.Sited) (hlo : h.start ≤ a ∨ a + wordSize = h.start)
    (hhi : a + wordSize ≤ Segment.stop h.segment) :
    Action.Runs (Action.load a) h ⟨h.memory.word a⟩ h [] := by
  refine ⟨rfl, rfl, ?_, fun b hb => hs.strays hlo hhi hb, rfl, rfl⟩
  change Event.requests (Action.strays h a) = []
  unfold Action.strays
  split <;> rfl

lemma header_runs {a : Nat} (hs : h.Sited) (hlo : h.start ≤ a)
    (hhi : a + wordSize ≤ Segment.stop h.segment) :
    Action.Runs (Block.size a) h (Tag.size ⟨h.memory.word a⟩) h [] :=
  (hs.load_runs (Or.inl hlo) hhi).andThen (Action.Runs.pure _ _)

theorem store_runs {a : Nat} (tag : Tag) (hs : h.Sited)
    (hlo : h.start ≤ a ∨ a + wordSize = h.start) (hhi : a + wordSize ≤ Segment.stop h.segment) :
    Action.Runs (Action.store a tag) h () (h.withMemory (h.memory.setWord a tag.bits)) [] := by
  refine ⟨rfl, rfl, ?_, fun b hb => hs.strays hlo hhi hb, rfl, rfl⟩
  change Event.requests (Action.strays h a) = []
  unfold Action.strays
  split <;> rfl

lemma withMemory (hs : h.Sited) (m : Memory) : (h.withMemory m).Sited :=
  ⟨hs.aligned, hs.base_lt, hs.stop_lt⟩

end Arena.Sited

lemma Word.add_ok {a b c : Nat} (h : Word.add a b = .ok c) : c = a + b := by
  unfold Word.add at h
  split at h
  next => exact (Except.ok.inj h).symm
  next => exact absurd h (by simp)

lemma Word.sub_ok {a b c : Nat} (h : Word.sub a b = .ok c) : b ≤ a ∧ c = a - b := by
  unfold Word.sub at h
  split at h
  next hle => exact ⟨hle, (Except.ok.inj h).symm⟩
  next => exact absurd h (by simp)

lemma Block.footer_eq {block size : Nat} (hsize : wordSize ≤ block + size)
    (hlt : block + size < Word.limit) : Block.footer block size = block + size - wordSize := by
  unfold Block.footer
  rw [Word.forward_of_lt hlt, Word.backward_of_le hsize hlt]

/-- Both tags of a block are written, even if it has no bytes and its footer is the one before it. -/
lemma Block.mark_stores {σ : Type} [Segment σ] {h : Arena σ} (block : Nat) {p : Piece}
    (hs : h.Sited) (hunit : p.size % blockUnit = 0) (hlo : h.start ≤ block)
    (hfoot : h.start + wordSize ≤ block + p.size) (hhead : block + wordSize ≤ Segment.stop h.segment)
    (hhi : block + p.size ≤ Segment.stop h.segment) :
    Action.Runs (Block.mark block p.size p.status) h ()
      (h.withMemory (h.memory.mark block p)) [] := by
  have hstop := hs.stop_lt
  have hfooter : Block.footer block p.size = block + p.size - wordSize :=
    Block.footer_eq (by omega) (by omega)
  unfold Block.mark
  apply (Action.Runs.lift (Tag.pack_of_dvd hunit p.status) h).andThen
  apply (hs.store_runs _ (Or.inl hlo) hhead).andThen
  rw [hfooter]
  exact (hs.withMemory _).store_runs _ (Or.inl (by simp only [Arena.withMemory_start]; omega))
    (by simp only [Arena.withMemory_segment]; omega)

theorem Block.mark_runs {σ : Type} [Segment σ] {h : Arena σ} (block : Nat) {p : Piece}
    (hs : h.Sited) (hp : p.Whole) (hlo : h.start ≤ block)
    (hhi : block + p.size ≤ Segment.stop h.segment) :
    Action.Runs (Block.mark block p.size p.status) h ()
      (h.withMemory (h.memory.mark block p)) [] := by
  have hle := hp.le
  simp only [minBlockSize] at hle
  exact Block.mark_stores block hs hp.2 hlo (by simp only [wordSize]; omega)
    (by simp only [wordSize]; omega) hhi

end BlockHeap
