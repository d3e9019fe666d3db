import BlockHeap.Proofs.Layout

/-!
# Walks along a chain

What a walk along a chain finds depends on the tags of the chain alone, wherever the segment lies.
`m.Walks h x h'` says that an action gets its answer without a request to the segment and touches no
tag outside the chain. In a laid out arena, a walk is a run.
-/

namespace BlockHeap

variable {σ : Type} [Segment σ]

namespace Action

variable {α β : Type}

/-- The action runs to its end and asks the segment for nothing; the tags that it touches lie from the
first block to the end sentinel. -/
structure Walks (m : Action σ α) (h : Arena σ) (x : α) (h' : Arena σ) : Prop where
  result : (m h).result = .ok x
  arena : (m h).arena = h'
  inside : ∀ e ∈ (m h).events, ∃ a, h.start ≤ a ∧ a ≤ h.stop ∧ e ∈ strays h a
  start : h'.start = h.start
  stop : h'.stop = h.stop
  segment : h'.segment = h.segment

namespace Walks

variable {m : Action σ α} {f : α → Action σ β} {h h₁ h₂ : Arena σ} {x : α} {y : β}

theorem andThen (hm : Walks m h x h₁) (hf : Walks (f x) h₁ y h₂) : Walks (m >>= f) h y h₂ := by
  obtain ⟨hresult, harena, hinside, hstart, hstop, hsegment⟩ := hm
  have hbind := bind_of_ok (f := f) (reply_eq hresult harena)
  constructor
  · rw [hbind]
    exact hf.result
  · rw [hbind]
    exact hf.arena
  · intro e he
    rw [hbind] at he
    rcases List.mem_append.mp he with he | he
    · exact hinside e he
    · -- whether a tag is committed depends on the segment only
      obtain ⟨a, hlow, hhigh, ha⟩ := hf.inside e he
      have hsame : strays h₁ a = strays h a := by
        unfold strays
        rw [hsegment]
      rw [hsame] at ha
      rw [hstart] at hlow
      rw [hstop] at hhigh
      exact ⟨a, hlow, hhigh, ha⟩
  · rw [hf.start, hstart]
  · rw [hf.stop, hstop]
  · rw [hf.segment, hsegment]

lemma pure (x : α) (h : Arena σ) : Walks (Pure.pure x : Action σ α) h x h :=
  ⟨rfl, rfl, by simp, rfl, rfl, rfl⟩

lemma get (h : Arena σ) : Walks Action.get h h h :=
  ⟨rfl, rfl, by simp [Action.get], rfl, rfl, rfl⟩

lemma lift {e : Except Fault α} (he : e = .ok x) (h : Arena σ) :
    Walks (liftM e : Action σ α) h x h :=
  ⟨he, rfl, by simp [liftM, monadLift, MonadLift.monadLift, Action.ofExcept], rfl, rfl, rfl⟩

lemma load {a : Nat} (hlow : h.start ≤ a) (hhigh : a ≤ h.stop) :
    Walks (Action.load a) h ⟨h.memory.word a⟩ h :=
  ⟨rfl, rfl, fun _ he => ⟨a, hlow, hhigh, he⟩, rfl, rfl, rfl⟩

/-- All tags from the first block to the end sentinel are committed. -/
theorem runs {blocks : List Piece} (hm : Walks m h x h₁) (hl : h.Laid blocks) :
    Runs m h x h₁ [] := by
  obtain ⟨hresult, harena, hinside, hstart, _, hsegment⟩ := hm
  have hheld : (m h).events = [] := by
    refine List.eq_nil_iff_forall_not_mem.mpr fun e he => ?_
    obtain ⟨a, hlow, hhigh, ha⟩ := hinside e he
    have hle := hl.stop_le
    have hbase := hl.base_lt
    unfold strays Segment.holds at ha
    rw [if_pos (by simp only [Bool.and_eq_true, decide_eq_true_eq]; omega)] at ha
    exact absurd ha List.not_mem_nil
  exact ⟨hresult, harena, by rw [hheld]; rfl, by simp [hheld], hstart, by rw [hsegment]⟩

end Walks
end Action

/-- A seam of the chain shows the tag after it. -/
lemma Arena.Linked.load_walks {h : Arena σ} {pre post : List Piece}
    (hl : h.Linked (pre ++ post)) :
    Action.Walks (Action.load (h.start + span pre)) h ⟨headBits post⟩ h := by
  have hlands := hl.lands
  rw [span_append] at hlands
  rw [← hl.chained.word_after]
  exact Action.Walks.load (by omega) (by omega)

end BlockHeap
