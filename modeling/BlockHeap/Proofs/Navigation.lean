import BlockHeap.Proofs.Search
import BlockHeap.Proofs.Session

/-!
# Both ways along a chain

The headers lead from each block to the next one, the footers back to the one before. They are two
records of the same chain, which merging relies on: in every chain in memory, going a block on and back
again, or back and on, leads where it started, and the walk back from the end sentinel visits the blocks
of the walk forward in reverse order. The start sentinel has size 0, so there is no way back from the
first block, and the walk ends there.
-/

namespace BlockHeap

variable {σ : Type} [Segment σ]

namespace Arena

/-- The blocks from `block` on up to `stop`, as the headers lead. A block of size 0 is the last one. -/
def blocksFrom (stop : Nat) : Nat → Nat → Action σ (List Nat)
  | 0, _ => Action.fault .endless
  | steps + 1, block =>
    if stop ≤ block then return []
    else do
      if (← Block.size block) = 0 then return [block]
      else return block :: (← blocksFrom stop steps (← Block.next block))

/-- The blocks before `block`, as the footers lead, the nearest one first. The walk ends at a block that
leads back to itself. -/
def blocksBefore : Nat → Nat → Action σ (List Nat)
  | 0, _ => Action.fault .endless
  | steps + 1, block => do
    let before ← Block.previous block
    if before = block then return []
    else return before :: (← blocksBefore steps before)

variable {h : Arena σ}

/-- A walk forward shows the block it is at and goes on where the header leads. -/
lemma blocksFrom_split {stop steps block : Nat} {visited : List Nat} {h' : Arena σ}
    (hstop : ¬stop ≤ block)
    (hw : Action.Yields (blocksFrom stop (steps + 1) block) h visited h') :
    ∃ rest, visited = block :: rest ∧ let n := Tag.size ⟨h.memory.word block⟩
      (n = 0 ∧ rest = [] ∨
        n ≠ 0 ∧ Action.Yields (blocksFrom stop steps (Word.forward block n)) h rest h') := by
  unfold blocksFrom at hw
  rw [if_neg hstop, (Action.Yields.size h block).step_iff] at hw
  split at hw
  next hzero => exact ⟨[], (Except.ok.inj hw.1).symm, Or.inl ⟨hzero, rfl⟩⟩
  next hpos =>
    rw [(Action.Yields.next h block).step_iff] at hw
    obtain ⟨rest, h₁, hrest, hlast⟩ := hw.of_bind
    obtain rfl : h₁ = h' := hlast.2
    exact ⟨rest, (Except.ok.inj hlast.1).symm, Or.inr ⟨hpos, hrest⟩⟩

/-- A first-fit search is along the walk forward, whatever the memory holds: it answers the first block
on it that fits, or the fault of the first one whose status cannot be told. -/
theorem firstFit_blocksFrom {stop size steps block : Nat} {visited : List Nat} {h' : Arena σ}
    (hw : Action.Yields (blocksFrom stop steps block) h visited h') :
    (firstFit stop size steps block h).result =
      visited.findM? fun b => fits ⟨h.memory.word b⟩ size := by
  induction steps generalizing block visited with
  | zero => exact absurd hw.1 nofun
  | succ steps ih =>
    unfold firstFit
    by_cases hstop : stop ≤ block
    · unfold blocksFrom at hw
      rw [if_pos hstop] at hw ⊢
      obtain rfl : [] = visited := Except.ok.inj hw.1
      rfl
    · obtain ⟨rest, rfl, hrest⟩ := blocksFrom_split hstop hw
      rw [if_neg hstop, (Action.Yields.load h block).result_bind]
      unfold List.findM?
      rcases hfits : fits ⟨h.memory.word block⟩ size with fault | fit
      · rfl
      · rw [(Action.Runs.lift rfl h).yields.result_bind]
        cases fit with
        | true => rfl
        | false =>
          rw [if_neg Bool.false_ne_true]
          rcases hrest with ⟨hzero, rfl⟩ | ⟨hpos, hrest⟩
          · rw [if_pos hzero]
            rfl
          · rw [if_neg hpos]
            exact ih hrest

namespace Linked

variable {blocks pre post : List Piece} {p : Piece}

lemma size_yields (hl : h.Linked (pre ++ p :: post)) :
    Action.Yields (Block.size (h.start + span pre)) h p.size h := by
  have hsize := Action.Yields.size h (h.start + span pre)
  rwa [hl.chained.word_head, hl.whole.tag_size] at hsize

lemma next_yields (hl : h.Linked (pre ++ p :: post)) :
    Action.Yields (Block.next (h.start + span pre)) h (h.start + span pre + p.size) h := by
  have hnext := Action.Yields.next h (h.start + span pre)
  rwa [hl.chained.word_head, hl.whole.tag_size, hl.forward_block] at hnext

/-- The size in the tag before a seam is that of the block that ends there. -/
lemma previous_seam (hl : h.Linked (pre ++ post)) :
    Action.Yields (Block.previous (h.start + span pre)) h
      (Word.backward (h.start + span pre) (Tag.size ⟨lastBits pre⟩)) h := by
  have hprevious := Action.Yields.previous h (h.start + span pre)
  rwa [hl.backward_seam, hl.chained.word_before] at hprevious

lemma previous_yields (hl : h.Linked (pre ++ p :: post)) :
    Action.Yields (Block.previous (h.start + span pre + p.size)) h (h.start + span pre) h := by
  have hle := hl.block_le
  have hlt := hl.stop_lt
  have hprevious := hl.step.previous_seam
  simp only [span_step, lastBits, List.getLast?_concat, Option.map_some, Option.getD_some]
    at hprevious
  rwa [hl.whole.tag_size, Word.backward_of_le (by omega) (by omega), Nat.add_sub_cancel]
    at hprevious

/-- Before the first block lies the start sentinel. -/
lemma sentinel_yields (hl : h.Linked blocks) :
    Action.Yields (Block.tagBefore h.start) h .sentinel h := by
  have hlands := hl.lands
  have hlt := hl.stop_lt
  have htag := Action.Yields.tagBefore h h.start
  rwa [Word.backward_of_le hl.word_le (by omega), hl.chained.before] at htag

/-- The start sentinel leads from the first block back to itself. -/
lemma previous_start (hl : h.Linked blocks) :
    Action.Yields (Block.previous h.start) h h.start h := by
  have hlands := hl.lands
  have hlt := hl.stop_lt
  have hfirst : h.Linked ([] ++ blocks) := hl
  have hprevious := hfirst.previous_seam
  rwa [span_nil, Nat.add_zero, show Tag.size ⟨lastBits []⟩ = 0 from rfl,
    Word.backward_of_le (Nat.zero_le _) (by omega), Nat.sub_zero] at hprevious

theorem blocksFrom_yields {steps : Nat} (hl : h.Linked (pre ++ post))
    (hsteps : post.length < steps) :
    Action.Yields (blocksFrom h.stop steps (h.start + span pre)) h
      (heads (h.start + span pre) post) h := by
  induction post generalizing pre steps with
  | nil =>
    obtain ⟨steps, rfl⟩ := Nat.exists_eq_add_of_lt hsteps
    have hlands := hl.lands
    rw [List.append_nil] at hlands
    unfold blocksFrom
    rw [if_pos (by omega)]
    exact ⟨rfl, rfl⟩
  | cons p post ih =>
    obtain ⟨steps, rfl⟩ : ∃ n, steps = n + 1 := ⟨steps - 1, by omega⟩
    have hlt := hl.block_lt_stop
    have hpos := hl.whole.1
    have hrest := ih hl.step (Nat.lt_of_succ_lt_succ hsteps)
    rw [span_step] at hrest
    unfold blocksFrom
    rw [if_neg (by omega)]
    apply Action.Yields.step p.size hl.size_yields
    rw [if_neg (by omega)]
    apply Action.Yields.step _ hl.next_yields
    exact hrest.bind ⟨rfl, rfl⟩

/-- The walk back is an induction on the blocks that are still before it, from their end. -/
theorem blocksBefore_yields {steps : Nat} (hl : h.Linked (pre ++ post))
    (hsteps : pre.length < steps) :
    Action.Yields (blocksBefore steps (h.start + span pre)) h (heads h.start pre).reverse h := by
  induction pre using List.reverseRecOn generalizing post steps with
  | nil =>
    obtain ⟨steps, rfl⟩ := Nat.exists_eq_add_of_lt hsteps
    unfold blocksBefore
    apply Action.Yields.step _ hl.previous_start
    rw [span_nil, Nat.add_zero, if_pos rfl]
    exact ⟨rfl, rfl⟩
  | append_singleton pre p ih =>
    obtain ⟨steps, rfl⟩ : ∃ n, steps = n + 1 := ⟨steps - 1, by omega⟩
    have hat : h.Linked (pre ++ p :: post) := by simpa using hl
    have hpos := hat.whole.1
    have hrest := ih hat (by simpa using hsteps)
    rw [span_step, heads_append, List.reverse_append]
    unfold blocksBefore
    apply Action.Yields.step _ hat.previous_yields
    rw [if_neg (by omega)]
    exact hrest.bind ⟨rfl, rfl⟩

/-- In every chain the footers lead back along the way that the headers lead, which is the way that a
search goes: all blocks are visited, none twice and nothing else, and each block is the neighbour of its
neighbours. -/
theorem walks_back (hl : h.Linked blocks) :
    ∃ visited, Action.Yields (blocksFrom h.stop h.walkLimit h.start) h visited h ∧
      Action.Yields (blocksBefore h.walkLimit h.stop) h visited.reverse h ∧
      visited = heads h.start blocks ∧
      (∀ size, (firstFit h.stop size h.walkLimit h.start h).result =
        visited.findM? fun b => fits ⟨h.memory.word b⟩ size) ∧
      (∀ b ∈ visited, Action.Yields (Block.next b >>= Block.previous) h b h) ∧
      (∀ b ∈ visited, b ≠ h.start → Action.Yields (Block.previous b >>= Block.next) h b h) ∧
      Action.Yields (Block.tagBefore h.start) h .sentinel h ∧ Tag.sentinel.size = 0 ∧
      Action.Yields (Block.previous h.start) h h.start h := by
  have hsteps := hl.length_lt_walkLimit
  have hfirst : h.Linked ([] ++ blocks) := hl
  have hlast : h.Linked (blocks ++ []) := by rwa [List.append_nil]
  have hforth := hfirst.blocksFrom_yields hsteps
  have hback := hlast.blocksBefore_yields hsteps
  rw [hl.lands] at hback
  refine ⟨_, hforth, hback, rfl, fun size => firstFit_blocksFrom hforth, fun b hb => ?_,
    fun b hb hne => ?_, hl.sentinel_yields, rfl, hl.previous_start⟩
  · obtain ⟨pre, p, post, rfl, rfl⟩ := mem_heads_iff.mp hb
    exact hl.next_yields.bind hl.previous_yields
  · obtain ⟨pre, p, post, rfl, rfl⟩ := mem_heads_iff.mp hb
    -- a block other than the first one has a block before it
    rcases List.eq_nil_or_concat' pre with rfl | ⟨init, q, rfl⟩
    · exact absurd rfl hne
    · have hbefore : h.Linked (init ++ q :: (p :: post)) := by simpa using hl
      rw [span_step]
      exact hbefore.previous_yields.bind hbefore.next_yields

/-- Four blocks, the first of them free. -/
theorem walks_back_played : ∃ (h : Heap (Reservation .common)) (live : List Lease),
    Heap.session (⟨0x100000, 65536, 0, 4096⟩ : Reservation .common) Reservation.blank Config.standard
      [.allocate 100, .allocate 40, .allocate 500, .free (some 0x100028)] = some (h, live) ∧
    Action.Yields (blocksBefore h.arena.walkLimit h.arena.stop) h.arena
      [0x100300, 0x1000e0, 0x1000a0, 0x100020] h.arena ∧
    Action.Yields (Block.previous 0x1000a0 >>= Block.next) h.arena 0x1000a0 h.arena := by
  let blocks : List Piece := [⟨128, .free⟩, ⟨64, .allocated⟩, ⟨544, .allocated⟩, ⟨224, .free⟩]
  have hplayed : (Heap.session (⟨0x100000, 65536, 0, 4096⟩ : Reservation .common) Reservation.blank
      Config.standard [.allocate 100, .allocate 40, .allocate 500, .free (some 0x100028)]).map
        (fun s => (s.1.arena.start, decide (s.1.arena.Linked blocks))) = some (0x100020, true) := by
    decide +kernel
  obtain ⟨⟨h, live⟩, hs, hfacts⟩ := Option.map_eq_some_iff.mp hplayed
  obtain ⟨hstart, hlinked⟩ := Prod.mk.inj hfacts
  simp only at hstart
  obtain ⟨visited, _, hback, hvisited, _, _, hround, _⟩ :=
    Linked.walks_back (of_decide_eq_true hlinked)
  rw [hstart] at hvisited hround
  subst hvisited
  exact ⟨h, live, hs, hback, hround 0x1000a0 (by decide) (by decide)⟩

end Linked
end Arena
end BlockHeap
