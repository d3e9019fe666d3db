import BlockHeap.Proofs.Calm

/-!
# Freeing without a block

What freeing a payload does when its header is no longer that of an allocated block. The tag of a
free block is left alone. A sentinel is not: it passes for an allocated block of size 0, whose
tags are written, and then written again as it is merged with itself from both sides.
-/

namespace BlockHeap

variable {σ : Type} [Segment σ]

/-- The memory after tags of size 0 were written around `b`, a header and below it a footer. -/
def Memory.blot (m : Memory) (b : Nat) : Memory :=
  (m.setWord b 0).setWord (b - wordSize) 0

namespace Arena

variable {h : Arena σ} {b : Nat}

lemma word_blot (m : Memory) (hb : wordSize ≤ b) :
    (m.blot b).word b = 0 ∧ (m.blot b).word (b - wordSize) = 0 := by
  unfold Memory.blot
  constructor
  · rw [Memory.word_setWord_of_disjoint (by omega), Memory.word_setWord]
    rfl
  · rw [Memory.word_setWord]
    rfl

lemma mark_blots (hb : wordSize ≤ b) (hlt : b < Word.limit) :
    Action.Yields (Block.mark b 0 .free) h () (h.withMemory (h.memory.blot b)) := by
  have hfooter : Block.footer b 0 = b - wordSize := Block.footer_eq hb hlt
  unfold Block.mark
  rw [hfooter]
  exact ⟨rfl, rfl⟩

lemma tagBefore_yields (hb : wordSize ≤ b) (hlt : b < Word.limit)
    (hfoot : h.memory.word (b - wordSize) = 0) : Action.Yields (Block.tagBefore b) h ⟨0⟩ h := by
  have htag := Action.Yields.tagBefore h b
  rwa [Word.backward_of_le hb hlt, hfoot] at htag

/-- A block of size 0 is merged with itself from both sides. -/
lemma mergeBefore_blots (hb : wordSize ≤ b) (hlt : b < Word.limit)
    (hfoot : h.memory.word (b - wordSize) = 0) :
    Action.Yields (mergeBefore b 0) h (b, 0) (h.withMemory (h.memory.blot b)) := by
  have hprevious := Action.Yields.previous h b
  rw [Word.backward_of_le hb hlt, hfoot, show Tag.size ⟨0⟩ = 0 from rfl,
    Word.backward_of_le (Nat.zero_le b) hlt, Nat.sub_zero] at hprevious
  unfold mergeBefore
  apply (tagBefore_yields hb hlt hfoot).bind
  apply Action.Yields.step true ⟨rfl, rfl⟩
  apply hprevious.bind
  apply Action.Yields.step 0 ⟨rfl, rfl⟩
  apply Action.Yields.step () (Action.Yields.note _ _ _)
  exact (mark_blots hb hlt).bind ⟨rfl, rfl⟩

lemma mergeAfter_blots (hb : wordSize ≤ b) (hlt : b < Word.limit) (hhead : h.memory.word b = 0) :
    Action.Yields (mergeAfter b 0) h 0 (h.withMemory (h.memory.blot b)) := by
  have hload := Action.Yields.load h b
  have hnext := Action.Yields.next h b
  rw [hhead] at hload hnext
  rw [show Tag.size ⟨0⟩ = 0 from rfl, Word.forward_of_lt hlt] at hnext
  unfold mergeAfter
  refine hnext.bind (hload.bind ?_)
  apply Action.Yields.step true ⟨rfl, rfl⟩
  apply Action.Yields.step 0 ⟨rfl, rfl⟩
  apply Action.Yields.step () (Action.Yields.note _ _ _)
  exact (mark_blots hb hlt).bind ⟨rfl, rfl⟩

omit [Segment σ] in
lemma pullCursor_rests (hlt : b < Word.limit) : Action.Yields (pullCursor b 0) h () h := by
  unfold pullCursor
  apply Action.Yields.step h ⟨rfl, rfl⟩
  rcases h.placement with _ | (_ | cursor) | _
  · exact ⟨rfl, rfl⟩
  · exact ⟨rfl, rfl⟩
  · by_cases hcursor : b < cursor
    · have hadd : Word.add b 0 = .ok b := Word.add_of_lt hlt
      simp only [if_pos hcursor, hadd]
      apply Action.Yields.step b ⟨rfl, rfl⟩
      rw [if_neg (by omega)]
      exact ⟨rfl, rfl⟩
    · simp only [if_neg hcursor]
      exact ⟨rfl, rfl⟩
  · exact ⟨rfl, rfl⟩

/-- There is nothing to give back of a block of size 0. -/
lemma trim_rests (hlt : b < Word.limit) (hfloor : h.floor ≤ h.stop) :
    Action.Yields (trim b 0) h () h := by
  have hadd : Word.add b 0 = .ok b := Word.add_of_lt hlt
  unfold trim
  apply Action.Yields.step h ⟨rfl, rfl⟩
  simp only [hadd]
  apply Action.Yields.step b ⟨rfl, rfl⟩
  by_cases hend : b ≠ h.stop ∨ 0 < h.shrinkThreshold
  · rw [if_pos hend]
    exact ⟨rfl, rfl⟩
  · rw [if_neg hend]
    have hkeep : h.floor - b = 0 := by omega
    simp only [hkeep]
    exact Action.Yields.step 0 ⟨rfl, rfl⟩ ⟨rfl, rfl⟩

lemma release_blots (hb : wordSize ≤ b) (hlt : b < Word.limit) (hfloor : h.floor ≤ h.stop)
    (hword : h.memory.word b = Tag.sentinel.bits) :
    ∃ m, m.word b = 0 ∧ Action.Yields (release b) h () (h.withMemory m) := by
  have hsize := Action.Yields.size h b
  rw [hword] at hsize
  have hmark := mark_blots (h := h) hb hlt
  have hbefore := mergeBefore_blots (h := h.withMemory (h.memory.blot b)) hb hlt
    (word_blot h.memory hb).2
  generalize h.memory.blot b = m₁ at hmark hbefore
  have hafter := mergeAfter_blots (h := h.withMemory (m₁.blot b)) hb hlt (word_blot m₁ hb).1
  simp only [withMemory_memory, withMemory_withMemory] at hbefore hafter
  generalize m₁.blot b = m₂ at hbefore hafter
  refine ⟨m₂.blot b, (word_blot m₂ hb).1, ?_⟩
  unfold release
  refine hsize.bind (hmark.bind (hbefore.bind (hafter.bind ?_)))
  exact (pullCursor_rests hlt).bind (trim_rests hlt hfloor)

/-- A payload whose header is the tag of a free block is left alone. -/
lemma free_yields {payload : Nat} (hat : Block.ofPayload payload = b)
    (hidle : h.memory.word b % blockUnit = 0) : Action.Yields (free (some payload)) h () h := by
  unfold free
  simp only [hat]
  refine Action.Yields.step () (Action.Yields.note _ _ _) ((Action.Yields.load h b).bind ?_)
  rw [Tag.isFree_of_mod hidle]
  exact Action.Yields.step true ⟨rfl, rfl⟩ ⟨rfl, rfl⟩

/-- A pointer whose header is idle is ignored, unless its header is a sentinel: that is cleared. -/
lemma free_idle {payload : Nat} (hat : Block.ofPayload payload = b) (hb : wordSize ≤ b)
    (hlt : b < Word.limit) (hfloor : h.floor ≤ h.stop) (hidle : Idle (h.memory.word b)) :
    ∃ m, Action.Yields (free (some payload)) h () (h.withMemory m) ∧
      (h.memory.word b = Tag.sentinel.bits → m.word b = 0) ∧
      (h.memory.word b ≠ Tag.sentinel.bits → m = h.memory) := by
  by_cases hsentinel : h.memory.word b = Tag.sentinel.bits
  · obtain ⟨m, hzero, hrelease⟩ := release_blots hb hlt hfloor hsentinel
    refine ⟨m, ?_, fun _ => hzero, fun hne => absurd hsentinel hne⟩
    unfold free
    simp only [hat]
    refine Action.Yields.step () (Action.Yields.note _ _ _) ((Action.Yields.load h b).bind ?_)
    rw [hsentinel]
    exact Action.Yields.step false ⟨rfl, rfl⟩ hrelease
  · exact ⟨h.memory, free_yields hat (hidle.resolve_right hsentinel),
      fun heq => absurd heq hsentinel, fun _ => rfl⟩

end Arena
end BlockHeap
