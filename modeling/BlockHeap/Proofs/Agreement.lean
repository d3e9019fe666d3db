import BlockHeap.Proofs.Integrity

/-!
# Agreeing arenas

A next-fit search starts at the first block when there is no cursor, so a cursor that is at the first
block and no cursor at all come to the same. `Near a h k` says that `k` is `h`, up to such a cursor,
where the first block is at `a`. All that is done to a chain does the same in both arenas: it has the
same answer and the same events, and leaves arenas that are near again.
-/

namespace BlockHeap
namespace Action

variable {σ α β : Type} {R : Arena σ → Arena σ → Prop}

/-- The action has the same answer and the same events in two arenas, and leaves arenas that are
related. -/
structure Agrees (R : Arena σ → Arena σ → Prop) (m : Action σ α) (h k : Arena σ) : Prop where
  result : (m k).result = (m h).result
  events : (m k).events = (m h).events
  arena : R (m h).arena (m k).arena

/-- The action agrees in any two arenas that are related. -/
def Respects (R : Arena σ → Arena σ → Prop) (m : Action σ α) : Prop :=
  ∀ h k, R h k → Agrees R m h k

lemma Agrees.bind {m : Action σ α} {f : α → Action σ β} {h k : Arena σ} (hm : Agrees R m h k)
    (hf : ∀ x, (m h).result = .ok x → Agrees R (f x) (m h).arena (m k).arena) :
    Agrees R (m >>= f) h k := by
  obtain ⟨hresult, hevents, harena⟩ := hm
  rcases hh : m h with ⟨_ | x, h', events⟩
  · rcases hk : m k with ⟨result, k', events'⟩
    rw [hh, hk] at hresult hevents harena
    simp only at hresult hevents harena
    subst hresult hevents
    have hleft := bind_of_error (f := f) hh
    have hright := bind_of_error (f := f) hk
    exact ⟨by rw [hleft, hright], by rw [hleft, hright], by rwa [hleft, hright]⟩
  · rcases hk : m k with ⟨result, k', events'⟩
    have hrest := hf x (by rw [hh])
    rw [hh, hk] at hresult hevents harena hrest
    simp only at hresult hevents harena hrest
    subst hresult hevents
    have hleft := bind_of_ok (f := f) hh
    have hright := bind_of_ok (f := f) hk
    refine ⟨?_, ?_, ?_⟩
    · rw [hleft, hright]
      exact hrest.result
    · rw [hleft, hright, hrest.events]
    · rw [hleft, hright]
      exact hrest.arena

lemma Respects.bind {m : Action σ α} {f : α → Action σ β} (hm : Respects R m)
    (hf : ∀ x, Respects R (f x)) : Respects R (m >>= f) :=
  fun h k hr => (hm h k hr).bind fun x _ => hf x _ _ (hm h k hr).arena

/-- After an action that respects the relation, whose run from one of the arenas is known. -/
lemma Respects.bindRun [Segment σ] {m : Action σ α} {f : α → Action σ β} {h k h' : Arena σ} {x : α}
    {asked : List Event} (hm : Respects R m) (hr : R h k) (hrun : Runs m h x h' asked)
    (hf : ∀ k', R h' k' → Agrees R (f x) h' k') : Agrees R (m >>= f) h k := by
  refine (hm h k hr).bind fun y hy => ?_
  have harena := (hm h k hr).arena
  obtain rfl := Except.ok.inj (hrun.result.symm.trans hy)
  rw [hrun.arena] at harena ⊢
  exact hf _ harena

lemma Agrees.of_replies {m : Action σ α} {h k h' k' : Arena σ} {result : Except Fault α}
    {events : List Event} (hh : m h = ⟨result, h', events⟩) (hk : m k = ⟨result, k', events⟩)
    (hr : R h' k') : Agrees R m h k := by
  refine ⟨by rw [hh, hk], by rw [hh, hk], ?_⟩
  rw [hh, hk]
  exact hr

lemma Agrees.of_eq {m m' : Action σ α} {h k : Arena σ} (hh : m h = m' h) (hk : m k = m' k)
    (hm : Agrees R m' h k) : Agrees R m h k := by
  refine ⟨?_, ?_, ?_⟩
  · rw [hh, hk, hm.result]
  · rw [hh, hk, hm.events]
  · rw [hh, hk]
    exact hm.arena

end Action

/-- The arenas differ at most in a cursor that is at their first block `a`, or nowhere. -/
inductive Arena.Near {σ : Type} (a : Nat) (h : Arena σ) : Arena σ → Prop where
  | same : Near a h h
  | parked (start : h.start = a) (resting : h.placement = .nextFit none) :
    Near a h (h.withPlacement (.nextFit (some a)))

open BlockHeap.Action (Respects Agrees)

namespace Near

variable {σ α β : Type} {a : Nat}

lemma agrees_self (m : Action σ α) (h : Arena σ) : Agrees (Arena.Near a) m h h :=
  ⟨rfl, rfl, .same⟩

/-- An action that neither looks at the placement nor changes it. -/
lemma of_blind {m : Action σ α} (hstart : ∀ h, (m h).arena.start = h.start)
    (hplacement : ∀ h, (m h).arena.placement = h.placement)
    (hm : ∀ h p, m (h.withPlacement p) = ⟨(m h).result, (m h).arena.withPlacement p, (m h).events⟩) :
    Respects (Arena.Near a) m := by
  intro h k hn
  cases hn with
  | same => exact agrees_self m h
  | parked hat hrest =>
    exact Agrees.of_replies rfl (hm h (.nextFit (some a)))
      (.parked ((hstart h).trans hat) ((hplacement h).trans hrest))

lemma pure (x : α) : Respects (Arena.Near a) (Pure.pure x : Action σ α) :=
  of_blind (fun _ => rfl) (fun _ => rfl) fun _ _ => rfl

lemma lift (e : Except Fault α) : Respects (Arena.Near a) (liftM e : Action σ α) :=
  of_blind (fun _ => rfl) (fun _ => rfl) fun _ _ => rfl

lemma fault (e : Fault) : Respects (Arena.Near a) (Action.fault e : Action σ α) :=
  of_blind (fun _ => rfl) (fun _ => rfl) fun _ _ => rfl

lemma log (severity : Severity) (n : Notice) :
    Respects (Arena.Near a) (Action.log severity n : Action σ Unit) :=
  of_blind (fun _ => rfl) (fun _ => rfl) fun _ _ => rfl

lemma write (f : Memory → Memory) : Respects (Arena.Near a)
    (Action.modify fun h => { h with memory := f h.memory } : Action σ Unit) :=
  of_blind (fun _ => rfl) (fun _ => rfl) fun _ _ => rfl

lemma setStop (stop : Nat) : Respects (Arena.Near a)
    (Action.modify fun h => { h with stop := stop } : Action σ Unit) :=
  of_blind (fun _ => rfl) (fun _ => rfl) fun _ _ => rfl

lemma ite {p : Prop} [Decidable p] {m m' : Action σ α} (ht : p → Respects (Arena.Near a) m)
    (hf : ¬p → Respects (Arena.Near a) m') : Respects (Arena.Near a) (if p then m else m') := by
  by_cases hp : p
  · rw [if_pos hp]
    exact ht hp
  · rw [if_neg hp]
    exact hf hp

/-- What looks at the arena, but not at its placement. -/
lemma getBind {f : Arena σ → Action σ α} (hsame : ∀ h p, f (h.withPlacement p) = f h)
    (hf : ∀ h, Respects (Arena.Near a) (f h)) : Respects (Arena.Near a) (Action.get >>= f) := by
  intro h k hn
  have hagree := hf h h k hn
  cases hn with
  | same => exact agrees_self _ h
  | parked hat hrest =>
    refine Agrees.of_eq (Action.get_bind f h) ?_ hagree
    rw [Action.get_bind, hsame]

lemma diag (level : Verbosity) {notice : Action σ Notice} (hn : Respects (Arena.Near a) notice) :
    Respects (Arena.Near a) (Action.diag level notice) := by
  unfold Action.diag
  refine getBind (fun _ _ => rfl) fun h => ite (fun _ => ?_) fun _ => pure _
  cases level.severity? with
  | none => exact pure _
  | some severity => exact hn.bind fun n => log severity n

lemma note (level : Verbosity) (n : Notice) :
    Respects (Arena.Near a) (Action.diag level (Pure.pure n) : Action σ Unit) :=
  diag level (pure n)

/-- Both arenas have the same cursor afterwards. -/
lemma setCursor (cursor : Option Nat) :
    Respects (Arena.Near a) (Arena.setCursor cursor : Action σ Unit) := by
  intro h k hn
  cases hn with
  | same => exact agrees_self _ h
  | parked hat hrest => exact ⟨rfl, rfl, .same⟩

/-- A cursor at the first block is never inside a block. -/
lemma pullCursor {block : Nat} (size : Nat) (hle : a ≤ block) :
    Respects (Arena.Near a) (Arena.pullCursor block size : Action σ Unit) := by
  intro h k hn
  cases hn with
  | same => exact agrees_self _ h
  | parked hat hrest =>
    have hleft : Arena.pullCursor block size h = (⟨.ok (), h, []⟩ : Reply σ Unit) := by
      unfold Arena.pullCursor
      rw [Action.get_bind, hrest]
      rfl
    have hright : Arena.pullCursor block size (h.withPlacement (.nextFit (some a))) =
        (⟨.ok (), h.withPlacement (.nextFit (some a)), []⟩ : Reply σ Unit) := by
      unfold Arena.pullCursor
      rw [Action.get_bind]
      simp only [Arena.withPlacement_placement, if_neg (show ¬block < a by omega)]
      rfl
    exact Agrees.of_replies hleft hright (.parked hat hrest)

/-- A cursor at the first block is only cut off with the whole arena. -/
lemma clipCursor (stop : Nat) :
    Respects (Arena.Near a) (Arena.clipCursor stop : Action σ Unit) := by
  intro h k hn
  cases hn with
  | same => exact agrees_self _ h
  | parked hat hrest =>
    have hleft : Arena.clipCursor stop h = (⟨.ok (), h, []⟩ : Reply σ Unit) := by
      unfold Arena.clipCursor
      rw [Action.get_bind, hrest]
      rfl
    by_cases hcut : stop ≤ a
    · have hright : Arena.clipCursor stop (h.withPlacement (.nextFit (some a))) =
          (⟨.ok (), h, []⟩ : Reply σ Unit) := by
        unfold Arena.clipCursor
        rw [Action.get_bind]
        simp only [Arena.withPlacement_placement, if_pos hcut]
        unfold Arena.setCursor Action.modify Arena.withPlacement
        rw [← hrest]
      exact Agrees.of_replies hleft hright .same
    · have hright : Arena.clipCursor stop (h.withPlacement (.nextFit (some a))) =
          (⟨.ok (), h.withPlacement (.nextFit (some a)), []⟩ : Reply σ Unit) := by
        unfold Arena.clipCursor
        rw [Action.get_bind]
        simp only [Arena.withPlacement_placement, if_neg hcut]
        rfl
      exact Agrees.of_replies hleft hright (.parked hat hrest)

variable [Segment σ]

lemma load (b : Nat) : Respects (Arena.Near a) (Action.load b : Action σ Tag) :=
  of_blind (fun _ => rfl) (fun _ => rfl) fun _ _ => rfl

lemma store (b : Nat) (tag : Tag) : Respects (Arena.Near a) (Action.store b tag : Action σ Unit) :=
  of_blind (fun _ => rfl) (fun _ => rfl) fun _ _ => rfl

lemma grow (bytes : Nat) :
    Respects (Arena.Near a) (Action.grow bytes : Action σ (Option SegmentError)) :=
  of_blind (fun _ => rfl) (fun _ => rfl) fun _ _ => rfl

lemma shrink (bytes : Nat) :
    Respects (Arena.Near a) (Action.shrink bytes : Action σ (Option SegmentError)) :=
  of_blind (fun _ => rfl) (fun _ => rfl) fun _ _ => rfl

lemma size (block : Nat) : Respects (Arena.Near a) (Block.size block : Action σ Nat) :=
  (load block).bind fun _ => pure _

lemma next (block : Nat) : Respects (Arena.Near a) (Block.next block : Action σ Nat) :=
  (size block).bind fun _ => pure _

lemma tagBefore (block : Nat) : Respects (Arena.Near a) (Block.tagBefore block : Action σ Tag) :=
  load _

lemma previous (block : Nat) : Respects (Arena.Near a) (Block.previous block : Action σ Nat) :=
  (tagBefore block).bind fun _ => pure _

lemma mark (block size : Nat) (status : Status) :
    Respects (Arena.Near a) (Block.mark block size status : Action σ Unit) :=
  (lift _).bind fun tag => (store block tag).bind fun _ => store _ tag

lemma lap (start stop size origin steps block : Nat) :
    Respects (Arena.Near a) (Arena.lap start stop size origin steps block : Action σ _) := by
  induction steps generalizing block with
  | zero => exact fault _
  | succ steps ih =>
    unfold Arena.lap
    refine (load block).bind fun tag => (lift _).bind fun fit => ?_
    exact ite (fun _ => pure _) fun _ => ite (fun _ => pure _) fun _ => ih _

lemma find_nextFit {h : Arena σ} {cursor : Option Nat} (size : Nat)
    (hp : h.placement = .nextFit cursor) :
    Arena.find size h =
      (Arena.lap h.start h.stop size (h.origin cursor) h.walkLimit (h.origin cursor) >>=
        fun found => do
          Arena.setCursor (some (found.getD (h.origin cursor)))
          return found) h := by
  unfold Arena.find
  rw [Action.get_bind, hp]
  simp only
  unfold Arena.nextFit
  rw [Action.get_bind]

/-- A search starts at the first block with either cursor, and both arenas have the same afterwards. -/
lemma find (size : Nat) : Respects (Arena.Near a) (Arena.find size : Action σ _) := by
  intro h k hn
  have hnear := hn
  cases hn with
  | same => exact agrees_self _ h
  | parked hat hrest =>
    have horigin : (h.withPlacement (.nextFit (some a))).origin (some a) = h.origin none := by
      unfold Arena.origin
      simp only [Arena.withPlacement_start, hat]
      split <;> rfl
    have hlimit : (h.withPlacement (.nextFit (some a))).walkLimit = h.walkLimit := rfl
    have hleft := find_nextFit size hrest
    have hright := find_nextFit (h := h.withPlacement (.nextFit (some a))) size rfl
    rw [horigin, hlimit, Arena.withPlacement_start, Arena.withPlacement_stop] at hright
    have hagree := ((lap h.start h.stop size (h.origin none) h.walkLimit (h.origin none)).bind
      fun found => (setCursor (some (found.getD (h.origin none)))).bind fun _ => pure found) h _ hnear
    exact Agrees.of_eq hleft hright hagree

lemma annex : Respects (Arena.Near a) (Arena.annex : Action σ _) := by
  have hrest : ∀ (last : Nat × Nat) (stop : Nat), Respects (Arena.Near a) (do
      Block.mark last.1 last.2 .free
      Action.store stop .sentinel
      Action.modify fun h => { h with stop := stop }
      return last : Action σ (Nat × Nat)) := fun last stop =>
    (mark _ _ _).bind fun _ => (store _ _).bind fun _ => (setStop stop).bind fun _ => pure last
  unfold Arena.annex
  refine getBind (fun _ _ => rfl) fun h => (lift _).bind fun stop => (lift _).bind fun gained => ?_
  refine (tagBefore _).bind fun before => (lift _).bind fun free => ite (fun _ => ?_) fun _ => ?_
  · refine (previous _).bind fun block => (lift _).bind fun total => ?_
    exact (pure (block, total)).bind fun last => hrest last stop
  · exact (pure (h.stop, gained)).bind fun last => hrest last stop

lemma enlargeWithin (size rounds : Nat) :
    Respects (Arena.Near a) (Arena.enlargeWithin size rounds : Action σ _) := by
  induction rounds with
  | zero => exact fault _
  | succ rounds ih =>
    unfold Arena.enlargeWithin
    refine getBind (fun _ _ => rfl) fun h => (grow _).bind fun refusal => ?_
    rcases refusal with _ | error
    · refine annex.bind fun last => (note _ _).bind fun _ => ?_
      exact ite (fun _ => pure _) fun _ => ih
    · exact (log _ _).bind fun _ => pure _

lemma trim (block size : Nat) : Respects (Arena.Near a) (Arena.trim block size : Action σ Unit) := by
  unfold Arena.trim
  refine getBind (fun _ _ => rfl) fun h => (lift _).bind fun reach => ?_
  refine ite (fun _ => pure _) fun _ => (lift _).bind fun bytes => ite (fun _ => pure _) fun _ => ?_
  refine (shrink _).bind fun refusal => ?_
  rcases refusal with _ | error
  · refine (note _ _).bind fun _ => (setStop _).bind fun _ => ite (fun _ => ?_) fun _ => ?_
    · exact (mark _ _ _).bind fun _ => (store _ _).bind fun _ => clipCursor _
    · exact (store _ _).bind fun _ => clipCursor _
  · exact log _ _

lemma carve (block size : Nat) : Respects (Arena.Near a) (Arena.carve block size : Action σ Unit) := by
  unfold Arena.carve
  refine (Near.size block).bind fun total => (lift _).bind fun least => ite (fun _ => ?_) fun _ => ?_
  · exact (diag _ ((lift _).bind fun _ => pure _)).bind fun _ => (mark _ _ _).bind fun _ => mark _ _ _
  · exact mark _ _ _

lemma mergeBefore (block size : Nat) :
    Respects (Arena.Near a) (Arena.mergeBefore block size : Action σ _) := by
  unfold Arena.mergeBefore
  refine (tagBefore block).bind fun before => (lift _).bind fun free => ite (fun _ => ?_) fun _ => ?_
  · refine (previous block).bind fun merged => (lift _).bind fun total => ?_
    exact (note _ _).bind fun _ => (mark _ _ _).bind fun _ => pure _
  · exact pure _

lemma mergeAfter (block size : Nat) :
    Respects (Arena.Near a) (Arena.mergeAfter block size : Action σ _) := by
  unfold Arena.mergeAfter
  refine (next block).bind fun after => (load after).bind fun tag => (lift _).bind fun free => ?_
  refine ite (fun _ => ?_) fun _ => pure _
  exact (lift _).bind fun total => (note _ _).bind fun _ => (mark _ _ _).bind fun _ => pure _

lemma obtain (size : Nat) : Respects (Arena.Near a) (Arena.obtain size : Action σ _) := by
  unfold Arena.obtain
  refine (find size).bind fun found => ?_
  rcases found with _ | block
  · exact enlargeWithin size _
  · exact pure _

lemma allocate (n : Nat) : Respects (Arena.Near a) (Arena.allocate n : Action σ _) := by
  unfold Arena.allocate
  refine (note _ _).bind fun _ => ite (fun _ => pure _) fun _ => ?_
  cases Block.sizeFor n with
  | none => exact pure _
  | some size =>
    refine (obtain size).bind fun found => ?_
    rcases found with _ | block
    · exact pure _
    · refine (carve block size).bind fun _ => ?_
      exact (diag _ ((Near.size block).bind fun _ => pure _)).bind fun _ => pure _

lemma allocateZeroed (count size : Nat) :
    Respects (Arena.Near a) (Arena.allocateZeroed count size : Action σ _) := by
  unfold Arena.allocateZeroed
  refine (note _ _).bind fun _ => ite (fun _ => ?_) fun _ => pure _
  refine (allocate _).bind fun found => ?_
  rcases found with _ | p
  · exact pure _
  · exact (write fun m => m.fill p (p + count * size) 0).bind fun _ => pure _

lemma growInPlace {block : Nat} (available new : Nat) (hle : a ≤ block) :
    Respects (Arena.Near a) (Arena.growInPlace block available new : Action σ Unit) := by
  unfold Arena.growInPlace
  refine (note _ _).bind fun _ => (mark _ _ _).bind fun _ => ?_
  exact (pullCursor available hle).bind fun _ => carve block new

end Near

namespace Arena

variable {σ : Type} [Segment σ] {P : σ → Prop} {h k : Arena σ} {pre post blocks : List Piece}
  {size a n : Nat}

/-- Releasing a block of the chain merges it with blocks that lie behind the first one, or with that
one itself. -/
lemma release_agrees (hl : h.Laid (pre ++ ⟨size, .allocated⟩ :: post)) (ha : a ≤ h.start)
    (hn : Near a h k) : Agrees (Near a) (release (h.start + span pre)) h k := by
  have hl' : h.Laid (pre ++ [⟨size, .allocated⟩] ++ post) := by simpa using hl
  obtain ⟨m₁, hmark, hlaid₁, _⟩ := hl'.mark_runs ⟨size, .free⟩ hl.whole (by simp)
  have hlaid₂ : (h.withMemory m₁).Laid (pre ++ ⟨size, .free⟩ :: post) := by simpa using hlaid₁
  obtain ⟨m₂, hbefore, _, _⟩ := mergeBefore_runs hlaid₂
  unfold release
  refine (Near.size _).bindRun hn hl.size_runs fun k₁ hn₁ => ?_
  refine (Near.mark _ _ _).bindRun hn₁ hmark fun k₂ hn₂ => ?_
  refine (Near.mergeBefore _ _).bindRun hn₂ hbefore fun k₃ hn₃ => ?_
  refine ((Near.mergeAfter _ _).bind fun total => ?_) _ _ hn₃
  have hle : a ≤ h.start + span (restTail pre) := Nat.le_add_right_of_le ha
  exact (Near.pullCursor total hle).bind fun _ => Near.trim _ total

lemma free_agrees (hl : h.Laid (pre ++ ⟨size, .allocated⟩ :: post)) (ha : a ≤ h.start)
    (hn : Near a h k) : Agrees (Near a) (free (some (h.start + span pre + wordSize))) h k := by
  have hload := hl.load_runs
  have hfree := hl.whole.tag_isFree
  simp only [headBits, List.head?_cons, Option.map_some, Option.getD_some] at hload
  unfold free
  refine (Near.note _ _).bindRun hn (Action.Runs.note _ _ h) fun k₁ hn₁ => ?_
  simp only [Block.ofPayload_eq hl.payload_lt]
  refine (Near.load _).bindRun hn₁ hload fun k₂ hn₂ => ?_
  refine (Near.lift _).bindRun hn₂ (Action.Runs.lift hfree h) fun k₃ hn₃ => ?_
  exact release_agrees hl ha hn₃

lemma shrinkInPlace_agrees {new : Nat} (hl : h.Laid (pre ++ ⟨size, .allocated⟩ :: post))
    (ha : a ≤ h.start) (hn : Near a h k) (hpos : 0 < new) (hunit : new % blockUnit = 0)
    (hlt : new < size) :
    Agrees (Near a) (shrinkInPlace (h.start + span pre) size new) h k := by
  have hold := hl.whole.2
  have hblock := hl.block_le
  have hlimit := hl.stop_lt_limit
  simp only [blockUnit] at hold hunit hblock
  obtain ⟨m₁, m₂, hmark₁, hmark₂, hlaid, _⟩ := hl.split_runs ⟨new, .allocated⟩
    ⟨size - new, .allocated⟩ ⟨hpos, hunit⟩
    ⟨by simp only; omega, by simp only [blockUnit]; omega⟩ (by simp only; omega)
  have hlaid₂ : (h.withMemory m₂).Laid
      ((pre ++ [⟨new, .allocated⟩]) ++ ⟨size - new, .allocated⟩ :: post) := by simpa using hlaid
  have hat : h.start + span (pre ++ [⟨new, .allocated⟩]) = h.start + span pre + new :=
    span_step _ _ _
  unfold shrinkInPlace
  refine (Near.note _ _).bindRun hn (Action.Runs.note _ _ h) fun k₁ hn₁ => ?_
  refine (Near.mark _ _ _).bindRun hn₁ hmark₁ fun k₂ hn₂ => ?_
  rw [Word.forward_of_lt (by omega)]
  refine (Near.mark _ _ _).bindRun hn₂ hmark₂ fun k₃ hn₃ => ?_
  have hrelease := release_agrees hlaid₂ ha hn₃
  simp only [withMemory_start, hat] at hrelease
  exact hrelease

lemma move_agrees (n : Nat) (hP : Segment.Exact P)
    (hs : h.Sound P (pre ++ ⟨size, .allocated⟩ :: post)) (ha : a ≤ h.start) (hn : Near a h k) :
    Agrees (Near a) (move (h.start + span pre + wordSize) size n) h k := by
  have hle := hs.toLaid.whole.le
  simp only [minBlockSize] at hle
  obtain ⟨r, h₁, asked, blocks₁, ⟨kept, hl₁, hkept, htaken₁⟩, _⟩ := allocate_trades hP hs n
  unfold move
  refine (Near.allocate n).bindRun hn hl₁.runs fun k₁ hn₁ => ?_
  cases r with
  | none => exact Near.pure _ _ _ hn₁
  | some t =>
    obtain ⟨pre₁, post₁, rfl, hpre₁, hs₂, _⟩ := hl₁.copied hkept htaken₁
    have hsub : Word.sub size (2 * wordSize) = .ok (size - 2 * wordSize) :=
      Word.sub_of_le (by simp only [wordSize]; omega)
    have hstart := hl₁.akin.start
    refine (Near.lift _).bindRun hn₁ (Action.Runs.lift hsub h₁) fun k₂ hn₂ => ?_
    refine (Near.write fun m => m.copy (h.start + span pre + wordSize) t
      (min (size - 2 * wordSize) n)).bindRun hn₂ (Action.Runs.modify rfl rfl) fun k₃ hn₃ => ?_
    have hfree := free_agrees hs₂.toLaid (by rw [withMemory_start, hstart]; exact ha) hn₃
    simp only [withMemory_start, hstart, hpre₁] at hfree
    exact hfree.bind fun _ _ => Near.pure _ _ _ hfree.arena

lemma resize_agrees (n : Nat) (hP : Segment.Exact P)
    (hs : h.Sound P (pre ++ ⟨size, .allocated⟩ :: post)) (ha : a ≤ h.start) (hn : Near a h k) :
    Agrees (Near a) (resize (some (h.start + span pre + wordSize)) n) h k := by
  unfold resize
  refine (Near.note _ _).bindRun hn (Action.Runs.note _ _ h) fun k₁ hn₁ => ?_
  by_cases hzero : n = 0
  · simp only [if_pos hzero]
    have hfree := free_agrees hs.toLaid ha hn₁
    exact hfree.bind fun _ _ => Near.pure _ _ _ hfree.arena
  simp only [if_neg hzero, Block.ofPayload_eq hs.toLaid.payload_lt]
  refine (Near.size _).bindRun hn₁ hs.toLaid.size_runs fun k₂ hn₂ => ?_
  cases hsized : Block.sizeFor n with
  | none => exact Near.pure _ _ _ hn₂
  | some new =>
    obtain ⟨hunit, hroom, _, _⟩ := Block.sizeFor_spec hsized
    by_cases hsame : new = size
    · simp only [if_pos hsame]
      exact Near.pure _ _ _ hn₂
    by_cases hless : new < size
    · simp only [if_neg hsame, if_pos hless]
      have hshrink := shrinkInPlace_agrees hs.toLaid ha hn₂
        (by simp only [wordSize] at hroom; omega) hunit hless
      exact hshrink.bind fun _ _ => Near.pure _ _ _ hshrink.arena
    · simp only [if_neg hsame, if_neg hless]
      refine (Near.next _).bindRun hn₂ hs.toLaid.next_runs fun k₃ hn₃ => ?_
      refine Agrees.bind (Near.load _ _ _ hn₃) fun after _ => ?_
      refine Agrees.bind (Near.lift _ _ _ hn₃) fun available _ => ?_
      refine Agrees.bind (Near.lift _ _ _ hn₃) fun idle _ => ?_
      by_cases hfits : (idle && decide (new ≤ available)) = true
      · rw [if_pos hfits]
        have hle : a ≤ h.start + span pre := Nat.le_add_right_of_le ha
        exact ((Near.growInPlace available new hle).bind fun _ => Near.pure _) _ _ hn₃
      · rw [if_neg hfits]
        exact move_agrees n hP hs ha hn₃

end Arena

/-- A call of a session does the same in arenas that are near. -/
theorem Held.agrees {σ : Type} [Segment σ] {P : σ → Prop} {h k : Arena σ} {live : List Lease}
    {blocks : List Piece} {c : Call} (hP : Segment.Exact P) (hh : Held P h live blocks)
    (hc : c.Valid live) (hn : Arena.Near h.start h k) :
    Agrees (Arena.Near h.start) c.action h k := by
  cases c with
  | allocate size => exact Near.allocate size h k hn
  | allocateZeroed count size => exact Near.allocateZeroed count size h k hn
  | free payload =>
    rcases payload with _ | p
    · exact (((Near.note _ _).bind fun _ => Near.pure _).bind fun _ => Near.pure _) h k hn
    · obtain ⟨l, hl, rfl⟩ := List.mem_map.mp (hc p rfl)
      obtain ⟨pre, post, rfl, hat⟩ := hh.split hl
      have hfree := Arena.free_agrees hh.sound.toLaid (Nat.le_refl _) hn
      rw [← hat] at hfree
      exact hfree.bind fun _ _ => Near.pure _ _ _ hfree.arena
  | resize payload size =>
    rcases payload with _ | p
    · exact ((Near.note _ _).bind fun _ => Near.allocate size) h k hn
    · obtain ⟨l, hl, rfl⟩ := List.mem_map.mp (hc p rfl)
      obtain ⟨pre, post, rfl, hat⟩ := hh.split hl
      have hresize := Arena.resize_agrees size hP hh.sound (Nat.le_refl _) hn
      rwa [← hat] at hresize

end BlockHeap
