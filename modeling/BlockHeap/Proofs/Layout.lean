import BlockHeap.Arena.Allocation
import BlockHeap.Proofs.Runs

/-!
# Laid out arenas

`h.Linked blocks` says that the arena's memory holds the chain `blocks` from its start to its stop,
and `h.Laid blocks` that the chain also lies in the arena's segment. In a laid out arena the tags next
to a block are those of its neighbours, and one lemma for each way to move along the chain says where
it leads. Splitting a block and merging it with a free neighbour replace a few pieces in the middle of
the chain and write nothing outside them.
-/

namespace BlockHeap

/-- The memory holds the chain between two sentinels, and all of it has addresses. -/
structure Arena.Linked {σ : Type} (h : Arena σ) (blocks : List Piece) : Prop where
  chained : Chained h.memory h.start blocks
  lands : h.start + span blocks = h.stop
  word_le : wordSize ≤ h.start
  stop_lt : h.stop < Word.limit

instance {σ : Type} (h : Arena σ) (blocks : List Piece) : Decidable (h.Linked blocks) :=
  decidable_of_iff (Chained h.memory h.start blocks ∧ h.start + span blocks = h.stop ∧
    wordSize ≤ h.start ∧ h.stop < Word.limit)
    ⟨fun h => ⟨h.1, h.2.1, h.2.2.1, h.2.2.2⟩, fun h => ⟨h.chained, h.lands, h.word_le, h.stop_lt⟩⟩

namespace Arena.Linked

variable {σ : Type} {h : Arena σ} {pre post blocks : List Piece} {p : Piece}

lemma whole (hl : h.Linked (pre ++ p :: post)) : p.Whole :=
  hl.chained.whole

lemma withPlacement (hl : h.Linked blocks) (p : Placement) : (h.withPlacement p).Linked blocks :=
  ⟨hl.chained, hl.lands, hl.word_le, hl.stop_lt⟩

lemma block_le (hl : h.Linked (pre ++ p :: post)) :
    h.start + span pre + p.size + span post = h.stop := by
  have hlands := hl.lands
  simp only [span_append, span_cons] at hlands
  omega

lemma block_lt_stop (hl : h.Linked (pre ++ p :: post)) : h.start + span pre < h.stop := by
  have hle := hl.block_le
  have hpos := hl.whole.1
  omega

lemma forward_block (hl : h.Linked (pre ++ p :: post)) :
    Word.forward (h.start + span pre) p.size = h.start + span pre + p.size := by
  have hle := hl.block_le
  have hlt := hl.stop_lt
  exact Word.forward_of_lt (by omega)

lemma backward_seam (hl : h.Linked (pre ++ post)) :
    Word.backward (h.start + span pre) wordSize = h.start + span pre - wordSize := by
  have hlands := hl.lands
  have hword := hl.word_le
  have hlt := hl.stop_lt
  rw [span_append] at hlands
  exact Word.backward_of_le (by omega) (by omega)

/-- The chain with one of its blocks moved to the part that a walk has behind it. -/
lemma step (hl : h.Linked (pre ++ p :: post)) : h.Linked ((pre ++ [p]) ++ post) := by
  rwa [List.append_assoc, List.singleton_append]

/-- Blocks are so large that a walk along them fits into the walk limit. -/
lemma length_lt_walkLimit (hl : h.Linked blocks) : blocks.length < h.walkLimit := by
  have hspan := length_le_span fun p hp => hl.chained.tiles.whole hp
  have hlands := hl.lands
  unfold walkLimit
  simp only [blockUnit] at *
  omega

end Arena.Linked

variable {σ : Type} [Segment σ]

/-- The chain takes all bytes from the arena's start to its stop. -/
structure Arena.Laid (h : Arena σ) (blocks : List Piece) : Prop extends h.Sited where
  chained : Chained h.memory h.start blocks
  stop_eq : h.start + span blocks = h.stop
  stop_le : h.stop + wordSize ≤ Segment.stop h.segment

namespace Arena.Laid

variable {h : Arena σ} {pre post : List Piece} {p : Piece}

lemma whole (hl : h.Laid (pre ++ p :: post)) : p.Whole :=
  hl.chained.whole

lemma stop_lt_limit {blocks : List Piece} (hl : h.Laid blocks) :
    h.stop + wordSize < Word.limit :=
  Nat.lt_of_le_of_lt hl.stop_le hl.stop_lt

lemma linked {blocks : List Piece} (hl : h.Laid blocks) : h.Linked blocks := by
  have hstart := hl.toSited.le_start
  have hlt := hl.stop_lt_limit
  simp only [blockUnit] at hstart
  exact ⟨hl.chained, hl.stop_eq, by simp only [wordSize]; omega, by omega⟩

lemma block_le (hl : h.Laid (pre ++ p :: post)) :
    h.start + span pre + p.size + span post = h.stop :=
  hl.linked.block_le

lemma last_iff (hl : h.Laid (pre ++ p :: post)) :
    h.start + span pre + p.size = h.stop ↔ post = [] := by
  have hle := hl.block_le
  constructor
  · intro hlast
    cases post with
    | nil => rfl
    | cons q rest =>
      have hq : q.Whole := hl.chained.tiles.whole (by simp)
      have hpos := hq.1
      simp only [span_cons] at hle
      omega
  · rintro rfl
    simpa using hle

lemma seam_le (hl : h.Laid (pre ++ post)) : h.start + span pre ≤ h.stop := by
  have hstop := hl.stop_eq
  simp only [span_append] at hstop
  omega

lemma bits_lt (hl : h.Laid (pre ++ p :: post)) : p.bits < Word.limit := by
  rw [← hl.chained.word_head]
  exact Memory.word_lt _ _

theorem load_runs (hl : h.Laid (pre ++ post)) :
    Action.Runs (Action.load (h.start + span pre)) h ⟨headBits post⟩ h [] := by
  have hle := hl.seam_le
  have hstop := hl.stop_le
  rw [← hl.chained.word_after]
  exact hl.toSited.load_runs (Or.inl (by omega)) (by omega)

theorem tagBefore_runs (hl : h.Laid (pre ++ post)) :
    Action.Runs (Block.tagBefore (h.start + span pre)) h ⟨lastBits pre⟩ h [] := by
  have hle := hl.seam_le
  have hstop := hl.stop_le
  have hstart := hl.toSited.le_start
  rw [← hl.chained.word_before]
  unfold Block.tagBefore
  rw [hl.linked.backward_seam]
  refine hl.toSited.load_runs ?_ (by simp only [wordSize, blockUnit] at *; omega)
  cases pre with
  | nil =>
    right
    simp only [span_nil, wordSize, blockUnit] at *
    omega
  | cons q pre =>
    left
    have hq : q.Whole := (tiles_append.mp hl.chained.tiles).1.1
    have hqle := hq.le
    simp only [span_cons, wordSize, minBlockSize] at *
    omega

theorem size_runs (hl : h.Laid (pre ++ p :: post)) :
    Action.Runs (Block.size (h.start + span pre)) h p.size h [] := by
  have hload := hl.load_runs
  simp only [headBits, List.head?_cons, Option.map_some, Option.getD_some] at hload
  unfold Block.size
  apply hload.andThen
  rw [hl.whole.tag_size]
  exact Action.Runs.pure _ _

theorem next_runs (hl : h.Laid (pre ++ p :: post)) :
    Action.Runs (Block.next (h.start + span pre)) h (h.start + span pre + p.size) h [] := by
  have hle := hl.block_le
  have hlt := hl.stop_lt_limit
  unfold Block.next
  apply hl.size_runs.andThen
  rw [Word.forward_of_lt (by omega)]
  exact Action.Runs.pure _ _

theorem previous_runs (hl : h.Laid (pre ++ [p] ++ post)) :
    Action.Runs (Block.previous (h.start + span (pre ++ [p]))) h (h.start + span pre) h [] := by
  have hp : p.Whole := (tiles_append.mp (tiles_append.mp hl.chained.tiles).1).2.1
  have hle := hl.seam_le
  have hlt := hl.stop_lt_limit
  have hbefore := hl.tagBefore_runs
  simp only [lastBits, List.getLast?_concat, Option.map_some, Option.getD_some] at hbefore
  unfold Block.previous
  apply hbefore.andThen
  rw [hp.tag_size, Word.backward_of_le (by simp only [span_append, span_cons]; omega) (by omega)]
  have haddr : h.start + span (pre ++ [p]) - p.size = h.start + span pre := by
    simp only [span_append, span_cons, span_nil]
    omega
  rw [haddr]
  exact Action.Runs.pure _ _

lemma withPlacement {blocks : List Piece} (hl : h.Laid blocks) (p : Placement) :
    (h.withPlacement p).Laid blocks :=
  ⟨⟨hl.aligned, hl.base_lt, hl.stop_lt⟩, hl.chained, hl.stop_eq, hl.stop_le⟩

lemma answered {blocks : List Piece} (move : Segment.Move σ) (hl : h.Laid blocks)
    (hbase : Segment.start move.segment = Segment.start h.segment)
    (hstop : h.stop + wordSize ≤ Segment.stop move.segment)
    (hlt : Segment.stop move.segment < Word.limit)
    (hm : ∀ a, h.start - wordSize ≤ a → a < h.stop + wordSize →
      move.memory.read a = h.memory.read a) :
    (h.answered move).Laid blocks := by
  have hstart := hl.toSited.le_start
  refine ⟨⟨hl.aligned, ?_, hlt⟩, ?_, hl.stop_eq, hstop⟩
  · change Segment.start move.segment < h.start
    rw [hbase]
    exact hl.base_lt
  · apply hl.chained.congr (by simp only [wordSize, blockUnit] at *; omega)
    rw [hl.stop_eq]
    exact hm

/-- Writing over pieces in the middle of the chain lays out the pieces that are written. -/
lemma replace {mid : List Piece} (mid' : List Piece) {m : Memory}
    (hl : h.Laid (pre ++ mid ++ post))
    (hspan : span mid' = span mid) (hmid : Tiles m (h.start + span pre) mid')
    (hm : Memory.SameOutside (h.start + span pre) (h.start + span pre + span mid) h.memory m) :
    (h.withMemory m).Laid (pre ++ mid' ++ post) := by
  have hstart := hl.toSited.le_start
  refine ⟨hl.toSited.withMemory m, ?_, ?_, hl.stop_le⟩
  · exact hl.chained.replace (by simp only [wordSize, blockUnit] at *; omega) hspan hmid hm
  · rw [withMemory_stop, ← hl.stop_eq]
    simp only [withMemory_start, span_append, hspan]

theorem mark_runs {mid : List Piece} (q : Piece) (hl : h.Laid (pre ++ mid ++ post))
    (hq : q.Whole) (hspan : q.size = span mid) :
    ∃ m, Action.Runs (Block.mark (h.start + span pre) q.size q.status) h ()
        (h.withMemory m) [] ∧
      (h.withMemory m).Laid (pre ++ [q] ++ post) ∧
      Memory.SameOutside (h.start + span pre) (h.start + span pre + span mid) h.memory m := by
  have hstop := hl.stop_eq
  have hle := hl.stop_le
  have hlt := hl.stop_lt
  simp only [span_append] at hstop
  have hbits : q.bits < Word.limit := by
    unfold Piece.bits
    have hone : q.status.bits ≤ 1 := by cases q.status <;> decide
    have hstart := hl.toSited.le_start
    simp only [blockUnit] at hstart
    omega
  have hsame := Memory.mark_sameOutside (h.start + span pre) hq h.memory
  rw [hspan] at hsame
  refine ⟨h.memory.mark (h.start + span pre) q, ?_, ?_, hsame⟩
  · exact Block.mark_runs _ hl.toSited hq (by omega) (by omega)
  · exact hl.replace _ (by simp [hspan]) (Memory.tiles_mark _ hq hbits _) hsame

theorem split_runs (q r : Piece) (hl : h.Laid (pre ++ p :: post)) (hq : q.Whole) (hr : r.Whole)
    (hsize : q.size + r.size = p.size) :
    ∃ m₁ m₂, Action.Runs (Block.mark (h.start + span pre) q.size q.status) h ()
        (h.withMemory m₁) [] ∧
      Action.Runs (Block.mark (h.start + span pre + q.size) r.size r.status)
        (h.withMemory m₁) () (h.withMemory m₂) [] ∧
      (h.withMemory m₂).Laid (pre ++ [q, r] ++ post) ∧
      Memory.SameOutside (h.start + span pre) (h.start + span pre + p.size) h.memory m₂ := by
  have hle := hl.block_le
  have hstop := hl.stop_le
  have hbits := hl.bits_lt
  have hqle := hq.le
  have hrle := hr.le
  have hone : ∀ s : Status, s.bits ≤ 1 := by intro s; cases s <;> decide
  simp only [Piece.bits, minBlockSize] at hbits hqle hrle
  have hqbits : q.bits < Word.limit := by
    have := hone q.status
    unfold Piece.bits
    omega
  have hrbits : r.bits < Word.limit := by
    have := hone r.status
    unfold Piece.bits
    omega
  have hsame₁ := Memory.mark_sameOutside (h.start + span pre) hq h.memory
  have hsame₂ := Memory.mark_sameOutside (h.start + span pre + q.size) hr
    (h.memory.mark (h.start + span pre) q)
  refine ⟨h.memory.mark (h.start + span pre) q, _, Block.mark_runs _ hl.toSited hq (by omega)
    (by omega), Block.mark_runs _ (hl.toSited.withMemory _) hr
    (by simp only [withMemory_start]; omega) (by simp only [withMemory_segment]; omega), ?_, ?_⟩
  · have hmid : (h.memory.mark (h.start + span pre) q).SameOutside (h.start + span pre)
        (h.start + span pre + p.size)
        ((h.memory.mark (h.start + span pre) q).mark (h.start + span pre + q.size) r) :=
      hsame₂.mono (by omega) (by omega)
    have hl' : h.Laid (pre ++ [p] ++ post) := by simpa using hl
    refine hl'.replace _ (by simp [hsize]) ?_ ?_
    · have htq := Memory.tiles_mark (h.start + span pre) hq hqbits h.memory
      have htr := Memory.tiles_mark (h.start + span pre + q.size) hr hrbits
        (h.memory.mark (h.start + span pre) q)
      have htq' := htq.congr fun b _ hb => hsame₂ b (Or.inl (by simpa using hb))
      exact ⟨htq'.1, htq'.2.1, htq'.2.2.1, htr⟩
    · simp only [span_cons, span_nil, Nat.add_zero]
      exact (hsame₁.mono (by omega) (by omega)).trans hmid
  · exact (hsame₁.mono (by omega) (by omega)).trans (hsame₂.mono (by omega) (by omega))

end Arena.Laid

/-- What becomes of a piece of `total` bytes that is carved down to `size` bytes. -/
def carved (size total : Nat) : List Piece :=
  if size + minBlockSize ≤ total then [⟨size, .allocated⟩, ⟨total - size, .free⟩]
  else [⟨total, .allocated⟩]

lemma span_carved (size total : Nat) : span (carved size total) = total := by
  unfold carved
  split
  next hle =>
    simp only [span_cons, span_nil]
    omega
  next => simp

/-- What is carved begins with a piece. -/
lemma exists_carved_eq (size total : Nat) : ∃ p rest, carved size total = p :: rest := by
  unfold carved
  split <;> exact ⟨_, _, rfl⟩

/-- Sizes are multiples of the block unit, so whatever a carved block leaves over stands on its
own. -/
lemma carved_eq {size total : Nat} (hsize : size % blockUnit = 0) (htotal : total % blockUnit = 0)
    (hle : size ≤ total) : carved size total = ⟨size, .allocated⟩ :: remnant (total - size) := by
  simp only [blockUnit] at hsize htotal
  unfold carved
  split
  next hsplit =>
    simp only [minBlockSize] at hsplit
    rw [remnant_of_pos (by omega)]
  next htight =>
    simp only [minBlockSize] at htight
    obtain rfl : total = size := by omega
    rw [Nat.sub_self, remnant_zero]

lemma taken_carved {a size total : Nat} (hsize : size % blockUnit = 0)
    (htotal : total % blockUnit = 0) (hle : size ≤ total) :
    taken a (carved size total) = [(a, size)] := by
  rw [carved_eq hsize htotal hle, taken_allocated, taken_remnant]

namespace Arena

variable {h : Arena σ} {pre post : List Piece} {p : Piece}

theorem carve_runs {size : Nat} (hl : h.Laid (pre ++ p :: post)) (hpos : 0 < size)
    (hsize : size % blockUnit = 0) (hle : size ≤ p.size) :
    ∃ m, Action.Runs (carve (h.start + span pre) size) h () (h.withMemory m) [] ∧
      (h.withMemory m).Laid (pre ++ carved size p.size ++ post) ∧
      Memory.SameOutside (h.start + span pre) (h.start + span pre + p.size) h.memory m := by
  have hblock := hl.block_le
  have hstart := hl.toSited.le_start
  have hlt := hl.stop_lt_limit
  have hp := hl.whole
  have hunit := hp.2
  simp only [blockUnit] at hsize hunit hstart
  unfold carve carved
  by_cases hsplit : size + minBlockSize ≤ p.size
  · obtain ⟨m₁, m₂, hmark₁, hmark₂, hlaid, hsame⟩ := hl.split_runs ⟨size, .allocated⟩
      ⟨p.size - size, .free⟩ ⟨hpos, hsize⟩
      ⟨by simp only [minBlockSize] at *; omega, by simp only [blockUnit]; omega⟩
      (by simp only; omega)
    refine ⟨m₂, ?_, by rwa [if_pos hsplit], hsame⟩
    apply hl.size_runs.andThen
    apply (Action.Runs.lift (Word.add_of_lt (by simp only [minBlockSize] at *; omega)) h).andThen
    rw [if_pos hsplit]
    have hrest := Action.Runs.lift (Word.sub_of_le hle) h
    refine (Action.Runs.diag _ (hrest.andThen (Action.Runs.pure _ h))).andThen ?_
    apply hmark₁.andThen
    rw [Word.forward_of_lt (by omega)]
    exact hmark₂
  · have hl' : h.Laid (pre ++ [p] ++ post) := by simpa using hl
    obtain ⟨m, hmark, hlaid, hsame⟩ := hl'.mark_runs ⟨p.size, .allocated⟩ ⟨hp.1, hp.2⟩ (by simp)
    refine ⟨m, ?_, by rwa [if_neg hsplit], by simpa using hsame⟩
    apply hl.size_runs.andThen
    apply (Action.Runs.lift (Word.add_of_lt (by simp only [minBlockSize] at *; omega)) h).andThen
    rw [if_neg hsplit]
    exact hmark

end Arena
end BlockHeap
