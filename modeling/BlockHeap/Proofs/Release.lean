import BlockHeap.Proofs.Exact

/-!
# Releasing a block

A block that is made free is merged with the free blocks on both sides of it, the next-fit cursor
leaves the headers that vanish, and a free block at the end goes back to an exact provider as far as
the floor. Each step is described by the chain that it leaves behind.
-/

namespace BlockHeap

namespace Placement

/-- The placement after the block at `block` took in all bytes up to `block + size`. -/
def pull (block size : Nat) : Placement → Placement
  | nextFit (some cursor) =>
    nextFit (some (if block < cursor ∧ cursor < block + size then block else cursor))
  | other => other

/-- The placement after the arena was cut off at `stop`. -/
def clip (stop : Nat) : Placement → Placement
  | nextFit (some cursor) => nextFit (if stop ≤ cursor then none else some cursor)
  | other => other

/-- The cursor, if there is one, is one of these addresses. -/
def PointsInto (p : Placement) (addresses : List Nat) : Prop :=
  ∀ c, p.cursor = some c → c ∈ addresses

lemma pull_policy (p : Placement) (block size : Nat) : (p.pull block size).policy = p.policy := by
  rcases p with _ | (_ | cursor) | _ <;> rfl

lemma clip_policy (p : Placement) (stop : Nat) : (p.clip stop).policy = p.policy := by
  rcases p with _ | (_ | cursor) | _ <;> rfl

lemma cursor_pull {p : Placement} {block size c : Nat} (h : (p.pull block size).cursor = some c) :
    c = block ∨ (p.cursor = some c ∧ ¬(block < c ∧ c < block + size)) := by
  rcases p with _ | (_ | cursor) | _
  · exact absurd h (by simp [pull, Placement.cursor])
  · exact absurd h (by simp [pull, Placement.cursor])
  · have hc : (if block < cursor ∧ cursor < block + size then block else cursor) = c := by
      simpa [pull, Placement.cursor] using h
    split at hc
    next => exact Or.inl hc.symm
    next hout =>
      subst hc
      exact Or.inr ⟨rfl, hout⟩
  · exact absurd h (by simp [pull, Placement.cursor])

lemma cursor_clip {p : Placement} {stop c : Nat} (h : (p.clip stop).cursor = some c) :
    p.cursor = some c ∧ c < stop := by
  rcases p with _ | (_ | cursor) | _
  · exact absurd h (by simp [clip, Placement.cursor])
  · exact absurd h (by simp [clip, Placement.cursor])
  · have hc : (if stop ≤ cursor then none else some cursor) = some c := by
      simpa [clip, Placement.cursor] using h
    split at hc
    next => exact absurd hc (by simp)
    next hlt =>
      obtain rfl := Option.some.inj hc
      exact ⟨rfl, by omega⟩
  · exact absurd h (by simp [clip, Placement.cursor])

/-- A cursor among the headers of a chain stays there when pieces in the middle become one. -/
lemma PointsInto.pull {p : Placement} {start : Nat} {pre mid post : List Piece} {q : Piece}
    (h : p.PointsInto (heads start (pre ++ mid ++ post))) (hspan : q.size = span mid)
    (hmid : ∀ r ∈ mid, 0 < r.size) :
    (p.pull (start + span pre) q.size).PointsInto (heads start (pre ++ [q] ++ post)) := by
  intro c hc
  rcases cursor_pull hc with rfl | ⟨hold, hout⟩
  · simp
  · have hmem := h c hold
    simp only [heads_append, heads_cons, heads_nil, List.mem_append, List.mem_singleton,
      span_append, span_cons, span_nil, Nat.add_zero, hspan] at hmem hout ⊢
    rcases hmem with (hpre | hin) | hpost
    · exact Or.inl (Or.inl hpre)
    · left
      right
      obtain ⟨before, r, after, rfl, rfl⟩ := mem_heads_iff.mp hin
      have hr := hmid r (by simp)
      simp only [span_append, span_cons] at hout
      omega
    · exact Or.inr hpost

end Placement

namespace Arena

variable {σ : Type} [Segment σ] {h : Arena σ} {pre post : List Piece}

lemma setCursor_runs (cursor : Option Nat) :
    Action.Runs (setCursor cursor) h () (h.withPlacement (.nextFit cursor)) [] :=
  Action.Runs.modify rfl rfl

theorem pullCursor_runs (block size : Nat) (hlt : block + size < Word.limit) :
    Action.Runs (pullCursor block size) h ()
      (h.withPlacement (h.placement.pull block size)) [] := by
  unfold pullCursor
  apply (Action.Runs.get h).andThen
  rcases hp : h.placement with _ | (_ | cursor) | _
  · rw [show Placement.pull block size .firstFit = h.placement from hp.symm]
    exact Action.Runs.pure _ _
  · rw [show Placement.pull block size (.nextFit none) = h.placement from hp.symm]
    exact Action.Runs.pure _ _
  · by_cases hafter : block < cursor
    · simp only [if_pos hafter]
      apply (Action.Runs.lift (Word.add_of_lt hlt) h).andThen
      by_cases hbefore : cursor < block + size
      · rw [if_pos hbefore, Placement.pull, if_pos ⟨hafter, hbefore⟩]
        exact setCursor_runs _
      · rw [if_neg hbefore, Placement.pull, if_neg (fun h => hbefore h.2), ← hp]
        exact Action.Runs.pure _ _
    · simp only [if_neg hafter]
      rw [Placement.pull, if_neg (fun h => hafter h.1), ← hp]
      exact Action.Runs.pure _ _
  · rw [show Placement.pull block size .bestFit = h.placement from hp.symm]
    exact Action.Runs.pure _ _

theorem clipCursor_runs (stop : Nat) :
    Action.Runs (clipCursor stop) h () (h.withPlacement (h.placement.clip stop)) [] := by
  unfold clipCursor
  apply (Action.Runs.get h).andThen
  rcases hp : h.placement with _ | (_ | cursor) | _
  · rw [show Placement.clip stop .firstFit = h.placement from hp.symm]
    exact Action.Runs.pure _ _
  · rw [show Placement.clip stop (.nextFit none) = h.placement from hp.symm]
    exact Action.Runs.pure _ _
  · by_cases hcut : stop ≤ cursor
    · simp only [if_pos hcut, Placement.clip]
      exact setCursor_runs _
    · simp only [if_neg hcut, Placement.clip]
      rw [← hp]
      exact Action.Runs.pure _ _
  · rw [show Placement.clip stop .bestFit = h.placement from hp.symm]
    exact Action.Runs.pure _ _

theorem mergeBefore_runs {size : Nat} (hl : h.Laid (pre ++ ⟨size, .free⟩ :: post)) :
    ∃ m, Action.Runs (mergeBefore (h.start + span pre) size) h
        (h.start + span (restTail pre), size + freeTail pre) (h.withMemory m) [] ∧
      (h.withMemory m).Laid (restTail pre ++ ⟨size + freeTail pre, .free⟩ :: post) ∧
      Memory.SameOutside (h.start + span (restTail pre)) (h.start + span pre + size) h.memory m := by
  have hblock := hl.block_le
  have hlt := hl.stop_lt_limit
  have htiles := hl.chained.tiles
  have hwhole : ∀ p ∈ pre, p.Whole := fun p hp => htiles.whole (List.mem_append_left _ hp)
  have hfree := lastBits_isFree hwhole
  unfold mergeBefore
  rcases tail_cases pre with ⟨hnone, hrest⟩ | hpre
  · rw [hnone] at hfree
    refine ⟨h.memory, ?_, by rwa [hrest, hnone], Memory.SameOutside.refl _ _ _⟩
    apply hl.tagBefore_runs.andThen
    apply (Action.Runs.lift hfree h).andThen
    rw [hrest, hnone]
    exact Action.Runs.pure _ _
  · have hsome : Piece.Whole ⟨freeTail pre, .free⟩ := hwhole _ (by rw [hpre]; simp)
    have hpos : 0 < freeTail pre := hsome.1
    have hsize := lastBits_size hwhole hpos
    have hspan := span_restTail pre
    have hlaid : h.Laid (restTail pre ++ [⟨freeTail pre, .free⟩, ⟨size, .free⟩] ++ post) := by
      have hassoc : restTail pre ++ [⟨freeTail pre, .free⟩, ⟨size, .free⟩] ++ post =
          (restTail pre ++ [⟨freeTail pre, .free⟩]) ++ ⟨size, .free⟩ :: post := by simp
      rw [hassoc, ← hpre]
      exact hl
    have hq : Piece.Whole ⟨size + freeTail pre, .free⟩ := by
      have h0 := hsome.2
      have h1 := hl.whole.2
      simp only [blockUnit] at h0 h1
      exact ⟨by simp only; omega, by simp only [blockUnit]; omega⟩
    obtain ⟨m, hmark, hlaid', hsame⟩ := hlaid.mark_runs ⟨size + freeTail pre, .free⟩ hq
      (by simp only [span_cons, span_nil]; omega)
    refine ⟨m, ?_, by simpa using hlaid', ?_⟩
    · apply hl.tagBefore_runs.andThen
      apply (Action.Runs.lift hfree h).andThen
      rw [if_pos (by simpa using hpos)]
      have hprev : h.Laid (restTail pre ++ [⟨freeTail pre, .free⟩] ++ ⟨size, .free⟩ :: post) := by
        simpa using hlaid
      have hprevious := hprev.previous_runs
      rw [← hpre] at hprevious
      apply hprevious.andThen
      refine (Action.Runs.lift (x := size + freeTail pre) ?_ h).andThen ?_
      · rw [hsize]
        exact Word.add_of_lt (by simp only at hblock; omega)
      · apply (Action.Runs.note _ _ h).andThen
        exact hmark.andThen (Action.Runs.pure _ _)
    · simp only [span_cons, span_nil, Nat.add_zero] at hsame
      exact hsame.mono (Nat.le_refl _) (by omega)

theorem mergeAfter_runs {size : Nat} (hl : h.Laid (pre ++ ⟨size, .free⟩ :: post)) :
    ∃ m, Action.Runs (mergeAfter (h.start + span pre) size) h (size + freeHead post)
        (h.withMemory m) [] ∧
      (h.withMemory m).Laid (pre ++ ⟨size + freeHead post, .free⟩ :: restHead post) ∧
      Memory.SameOutside (h.start + span pre) (h.start + span pre + size + freeHead post)
        h.memory m := by
  have hblock := hl.block_le
  have hlt := hl.stop_lt_limit
  have htiles := hl.chained.tiles
  have hwhole : ∀ p ∈ post, p.Whole := fun p hp =>
    htiles.whole (List.mem_append_right _ (List.mem_cons_of_mem _ hp))
  have hfree := headBits_isFree hwhole
  have hload : Action.Runs (Action.load (h.start + span pre + size)) h ⟨headBits post⟩ h [] := by
    have hseam : h.Laid ((pre ++ [⟨size, .free⟩]) ++ post) := by simpa using hl
    have hat := hseam.load_runs
    simpa [Nat.add_assoc] using hat
  unfold mergeAfter
  rcases head_cases post with ⟨hnone, hrest⟩ | hpost
  · rw [hnone] at hfree
    refine ⟨h.memory, ?_, by rwa [hrest, hnone], Memory.SameOutside.refl _ _ _⟩
    apply hl.next_runs.andThen
    apply hload.andThen
    apply (Action.Runs.lift hfree h).andThen
    rw [hnone]
    exact Action.Runs.pure _ _
  · have hsome : Piece.Whole ⟨freeHead post, .free⟩ := hwhole _ (by rw [hpost]; simp)
    have hpos : 0 < freeHead post := hsome.1
    have hsize := headBits_size hwhole hpos
    have hspan := span_restHead post
    have hlaid : h.Laid (pre ++ [⟨size, .free⟩, ⟨freeHead post, .free⟩] ++ restHead post) := by
      have hassoc : pre ++ [⟨size, .free⟩, ⟨freeHead post, .free⟩] ++ restHead post =
          pre ++ ⟨size, .free⟩ :: (⟨freeHead post, .free⟩ :: restHead post) := by simp
      rw [hassoc, ← hpost]
      exact hl
    have hq : Piece.Whole ⟨size + freeHead post, .free⟩ := by
      have h0 := hsome.2
      have h1 := hl.whole.2
      simp only [blockUnit] at h0 h1
      exact ⟨by simp only; omega, by simp only [blockUnit]; omega⟩
    obtain ⟨m, hmark, hlaid', hsame⟩ := hlaid.mark_runs ⟨size + freeHead post, .free⟩ hq (by simp)
    refine ⟨m, ?_, by simpa using hlaid', by simpa [Nat.add_assoc] using hsame⟩
    apply hl.next_runs.andThen
    apply hload.andThen
    apply (Action.Runs.lift hfree h).andThen
    rw [if_pos (by simpa using hpos)]
    refine (Action.Runs.lift (x := size + freeHead post) ?_ h).andThen ?_
    · rw [hsize]
      exact Word.add_of_lt (by simp only at hblock; omega)
    · apply (Action.Runs.note _ _ h).andThen
      exact hmark.andThen (Action.Runs.pure _ _)

/-- Nothing goes back of a block that is not the last, that is too small, or that ends at the
floor. -/
theorem trim_idle_runs {size : Nat} (hl : h.Laid (pre ++ ⟨size, .free⟩ :: post))
    (hidle : post ≠ [] ∨ size < h.shrinkThreshold ∨ h.floor = h.stop) :
    Action.Runs (trim (h.start + span pre) size) h () h [] := by
  have hblock := hl.block_le
  have hlt := hl.stop_lt_limit
  simp only at hblock
  unfold trim
  apply (Action.Runs.get h).andThen
  apply (Action.Runs.lift (Word.add_of_lt (by omega)) h).andThen
  by_cases hstay : h.start + span pre + size ≠ h.stop ∨ size < h.shrinkThreshold
  · rw [if_pos hstay]
    exact Action.Runs.pure _ _
  · rw [if_neg hstay]
    have hfloor : h.floor = h.stop := by
      rcases hidle with hpost | hsmall | hfloor
      · exact absurd (Or.inl fun hlast => hpost (hl.last_iff.mp hlast)) hstay
      · exact absurd (Or.inr hsmall) hstay
      · exact hfloor
    apply (Action.Runs.lift (Word.sub_of_le (by omega)) h).andThen
    rw [if_pos (by omega)]
    exact Action.Runs.pure _ _

section Trim

variable {P : σ → Prop} {size : Nat}

/-- The bytes that the free block of `size` bytes at the end gives back. -/
def surplus (h : Arena σ) (block size : Nat) : Nat :=
  size - (h.floor - block)

lemma surplus_add (hl : h.Laid (pre ++ [⟨size, .free⟩])) (hfloor : h.floor < h.stop) :
    h.surplus (h.start + span pre) size + max h.floor (h.start + span pre) = h.stop := by
  have hblock := hl.block_le
  unfold surplus
  simp only [span_nil] at hblock
  omega

/-- Marking what is left of a block as free, if anything is, before something else. -/
lemma markRemnant_runs (block keep : Nat) (hs : h.Sited) (hkeep : keep % blockUnit = 0)
    (hlo : h.start ≤ block) (hhi : block + keep ≤ Segment.stop h.segment) :
    ∃ m, (∀ (rest : Action σ Unit) (h' : Arena σ) (asked : List Event),
        Action.Runs rest (h.withMemory m) () h' asked →
        Action.Runs (if keep > 0 then Block.mark block keep .free >>= fun _ => rest else rest)
          h () h' asked) ∧
      Tiles m block (remnant keep) ∧ ∀ a, a < block → m.read a = h.memory.read a := by
  unfold remnant
  by_cases hpos : 0 < keep
  · have hq : Piece.Whole ⟨keep, .free⟩ := ⟨hpos, hkeep⟩
    have hstop := hs.stop_lt
    have hstart := hs.le_start
    refine ⟨h.memory.mark block ⟨keep, .free⟩, ?_, ?_, ?_⟩
    · intro rest h' asked hrest
      rw [if_pos hpos]
      exact (Block.mark_runs _ hs hq hlo hhi).andThen hrest
    · rw [if_pos hpos]
      refine Memory.tiles_mark _ hq ?_ _
      simp only [Piece.bits, Status.bits, blockUnit] at *
      omega
    · exact fun a ha => Memory.mark_sameOutside _ hq _ a (Or.inl ha)
  · refine ⟨h.memory, ?_, ?_, fun _ _ => rfl⟩
    · intro rest h' asked hrest
      rwa [if_neg hpos]
    · rw [if_neg hpos]
      trivial

theorem trim_refused_runs {error : SegmentError} (hP : Segment.Exact P)
    (hl : h.Laid (pre ++ [⟨size, .free⟩])) (hvalid : P h.segment)
    (hsize : h.shrinkThreshold ≤ size) (hfloor : h.floor < h.stop)
    (hrefusal : (Segment.shrink (h.surplus (h.start + span pre) size) h.segment h.memory).refusal =
      some error) :
    Action.Runs (trim (h.start + span pre) size) h ()
      (h.answered (Segment.shrink (h.surplus (h.start + span pre) size) h.segment h.memory))
      [.shrink (h.surplus (h.start + span pre) size)] := by
  have hblock := hl.block_le
  have hlt := hl.stop_lt_limit
  have hpos := hl.whole.1
  simp only [span_nil] at hblock hpos
  have hshrink := Action.Runs.shrink (h.surplus (h.start + span pre) size)
    (hP.shrink_start _ _ hvalid)
  rw [hrefusal] at hshrink
  unfold trim
  apply (Action.Runs.get h).andThen
  apply (Action.Runs.lift (Word.add_of_lt (by omega)) h).andThen
  rw [if_neg (by omega)]
  refine (Action.Runs.lift (Word.sub_of_le (by omega)) h).andThen ?_
  rw [if_neg (by omega)]
  exact hshrink.bind (Action.Runs.log _ _ _)

theorem trim_granted_runs (hP : Segment.Exact P) (hl : h.Laid (pre ++ [⟨size, .free⟩]))
    (hvalid : P h.segment) (hsize : h.shrinkThreshold ≤ size) (hfloor : h.floor < h.stop)
    (hunit : h.floor % blockUnit = 0)
    (hrefusal : (Segment.shrink (h.surplus (h.start + span pre) size) h.segment h.memory).refusal =
      none) :
    ∃ h', Action.Runs (trim (h.start + span pre) size) h () h'
        [.shrink (h.surplus (h.start + span pre) size)] ∧
      h'.Laid (pre ++ remnant (h.floor - (h.start + span pre))) ∧ h.Akin h' ∧
      h'.segment =
        (Segment.shrink (h.surplus (h.start + span pre) size) h.segment h.memory).segment ∧
      h'.stop = max h.floor (h.start + span pre) ∧ h'.placement = h.placement.clip h'.stop ∧
      ∀ a, h.start - wordSize ≤ a → a < h.start + span pre →
        h'.memory.read a = h.memory.read a := by
  have hblock := hl.block_le
  have hlt := hl.stop_lt_limit
  have hpos := hl.whole.1
  have hsum := surplus_add hl hfloor
  have hstop := hl.stop_le
  have hfirst := hl.toSited.firstWord_le
  have hstart := hl.toSited.le_start
  have hal := hl.aligned
  have hpre : span pre % blockUnit = 0 := (tiles_append.mp hl.chained.tiles).1.span_mod
  simp only [span_nil, blockUnit] at hblock hpos hpre hal hunit hstart
  have hback : Word.backward h.stop (size - (h.floor - (h.start + span pre))) =
      max h.floor (h.start + span pre) := by
    rw [Word.backward_of_le (by omega) (by omega)]
    omega
  have hgranted := hP.shrink_granted _ _ hvalid hrefusal
  have hbase := hP.shrink_start (h.surplus (h.start + span pre) size) h.memory hvalid
  have hkept := hP.shrink_kept (h.surplus (h.start + span pre) size) h.memory hvalid
  have hlimit := hP.stop_lt (hP.shrink_valid (h.surplus (h.start + span pre) size) h.memory hvalid)
  have hshrink := Action.Runs.shrink (h.surplus (h.start + span pre) size) hbase
  rw [hrefusal] at hshrink
  generalize hmove : Segment.shrink (h.surplus (h.start + span pre) size) h.segment h.memory = move
    at hshrink hgranted hbase hkept hlimit ⊢
  let h₁ : Arena σ := { h.answered move with stop := max h.floor (h.start + span pre) }
  have hsited : h₁.Sited := by
    refine ⟨hl.aligned, ?_, hlimit⟩
    change Segment.start move.segment < h.start
    rw [hbase]
    exact hl.base_lt
  obtain ⟨m, hmark, htiles, hsame⟩ := markRemnant_runs (h.start + span pre)
    (h.floor - (h.start + span pre)) hsited (by simp only [blockUnit]; omega)
    (by change h.start ≤ _; omega) (by change _ ≤ Segment.stop move.segment; omega)
  have hend : h.start + span pre + (h.floor - (h.start + span pre)) =
      max h.floor (h.start + span pre) := by omega
  have hread : ∀ a, h.start - wordSize ≤ a → a < h.start + span pre →
      m.read a = h.memory.read a := by
    intro a ha ha'
    rw [hsame a ha']
    exact hkept a (by simp only [wordSize] at *; omega) (by simp only [wordSize] at *; omega)
  have hchained := hl.chained.endWithRemnant (by simp only [wordSize]; omega) hread htiles
  rw [hend] at hchained
  refine ⟨{ h₁ with
      memory := m.setWord (max h.floor (h.start + span pre)) Tag.sentinel.bits
      placement := h.placement.clip (max h.floor (h.start + span pre)) }, ?_, ?_, ?_, rfl, rfl, rfl,
    ?_⟩
  · unfold trim
    apply (Action.Runs.get h).andThen
    apply (Action.Runs.lift (Word.add_of_lt (by omega)) h).andThen
    rw [if_neg (by omega)]
    apply (Action.Runs.lift (Word.sub_of_le (by omega)) h).andThen
    rw [if_neg (by omega)]
    apply hshrink.thenQuiet
    apply (Action.Runs.note _ _ _).andThen
    apply (Action.Runs.modify (h := h.answered move) rfl rfl).andThen
    simp only [hback]
    apply hmark _ _ _
    refine (hsited.withMemory m |>.store_runs _ (Or.inl ?_) ?_).andThen ?_
    · change h.start ≤ _
      omega
    · change _ ≤ Segment.stop move.segment
      omega
    · exact clipCursor_runs _
  · refine ⟨⟨hl.aligned, hsited.base_lt, hlimit⟩, hchained, ?_, ?_⟩
    · change h.start + span (pre ++ remnant _) = max h.floor (h.start + span pre)
      rw [span_append, span_remnant]
      omega
    · change max h.floor (h.start + span pre) + wordSize ≤ Segment.stop move.segment
      omega
  · exact ⟨rfl, rfl, rfl, rfl, Placement.clip_policy _ _⟩
  · intro a ha ha'
    change (m.setWord _ _).read a = _
    rw [Memory.read_setWord, if_neg (by omega)]
    exact hread a ha ha'

end Trim

end Arena
end BlockHeap
