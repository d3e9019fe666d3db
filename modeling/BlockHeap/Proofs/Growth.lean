import BlockHeap.Proofs.Search

/-!
# Growing an arena

New bytes above the old end sentinel become one free block together with the free block that was at
the end. With an exact provider a single request is enough, since it asks for no less than the size
that is wanted.
-/

namespace BlockHeap

variable {σ : Type}

def Arena.withStop (h : Arena σ) (stop : Nat) : Arena σ :=
  { h with stop := stop }

variable [Segment σ]

namespace Arena

variable {P : σ → Prop} {h : Arena σ} {blocks : List Piece} {size gained : Nat}

lemma endSentinel_eq {a : Nat} (ha : wordSize ≤ a) :
    endSentinel a = .ok (Word.floorUnit (a - wordSize)) := by
  unfold endSentinel
  rw [Word.sub_of_le ha]
  rfl

lemma floorUnit_mod (a : Nat) : Word.floorUnit a % blockUnit = 0 :=
  Nat.mul_mod_left _ _

lemma floorUnit_mono {a b : Nat} (h : a ≤ b) : Word.floorUnit a ≤ Word.floorUnit b :=
  Nat.mul_le_mul_right _ (Nat.div_le_div_right h)

lemma Laid.stop_mod (hl : h.Laid blocks) : h.stop % blockUnit = 0 := by
  have hal := hl.aligned
  have hspan := hl.chained.tiles.span_mod
  have hstop := hl.stop_eq
  simp only [blockUnit] at *
  omega

/-- The free block at the end of an arena, and what is left of it without. -/
lemma lastFree_runs {α : Type} {f : Nat × Nat → Action σ α} {x : α} {h' : Arena σ}
    {asked : List Event} (hl : h.Laid blocks) (hlt : h.stop + gained < Word.limit)
    (hf : Action.Runs (f (h.start + span (restTail blocks), gained + freeTail blocks))
      h x h' asked) :
    Action.Runs (do
      let before ← Block.tagBefore h.stop
      let last ←
        if ← before.isFree then do
          let block ← Block.previous h.stop
          pure (block, ← Word.add gained before.size)
        else pure (h.stop, gained)
      f last) h x h' asked := by
  have hwhole : ∀ p ∈ blocks, p.Whole := fun p hp => hl.chained.tiles.whole hp
  have hfree := lastBits_isFree hwhole
  have hspan := span_restTail blocks
  have hstop := hl.stop_eq
  have hseam : h.Laid (blocks ++ []) := by rwa [List.append_nil]
  have hbefore := hseam.tagBefore_runs
  rw [hstop] at hbefore
  apply hbefore.andThen
  apply (Action.Runs.lift hfree h).andThen
  rcases tail_cases blocks with ⟨hnone, hrest⟩ | htail
  · rw [hnone, hrest, Nat.add_zero, hstop] at hf
    rw [hnone]
    exact (Action.Runs.pure _ _).andThen hf
  · have hlast : Piece.Whole ⟨freeTail blocks, .free⟩ := hwhole _ (by rw [htail]; simp)
    have hpos : 0 < freeTail blocks := hlast.1
    have hprev : h.Laid (restTail blocks ++ [⟨freeTail blocks, .free⟩] ++ []) := by
      rw [← htail]
      exact hseam
    have hprevious := hprev.previous_runs
    rw [← htail, hstop] at hprevious
    rw [lastBits_size hwhole hpos, if_pos (by simpa using hpos)]
    apply hprevious.andThen
    apply (Action.Runs.lift (Word.add_of_lt (by omega)) h).andThen
    exact (Action.Runs.pure _ _).andThen hf

/-- Taking the bytes above the old end in. They must make a block, together with what was free. -/
theorem annex_runs (hl : h.Laid blocks)
    (hends : Word.floorUnit (Segment.stop h.segment - wordSize) = h.stop + gained)
    (hpos : 0 < gained + freeTail blocks) :
    ∃ m, Action.Runs annex h (h.start + span (restTail blocks), gained + freeTail blocks)
        ((h.withMemory m).withStop (h.stop + gained)) [] ∧
      ((h.withMemory m).withStop (h.stop + gained)).Laid
        (restTail blocks ++ [⟨gained + freeTail blocks, .free⟩]) ∧
      ∀ a, a < h.start + span (restTail blocks) → m.read a = h.memory.read a := by
  have hspan := span_restTail blocks
  have hstop := hl.stop_eq
  have hle := hl.stop_le
  have hlimit := hl.stop_lt
  have hstart := hl.toSited.le_start
  have hmod := floorUnit_mod (Segment.stop h.segment - wordSize)
  have hfloor : Word.floorUnit (Segment.stop h.segment - wordSize) ≤
      Segment.stop h.segment - wordSize := Nat.div_mul_le_self _ _
  have hstopmod := hl.stop_mod
  have hwhole : ∀ p ∈ blocks, p.Whole := fun p hp => hl.chained.tiles.whole hp
  have hrest : span (restTail blocks) % blockUnit = 0 := by
    have htiles := hl.chained.tiles
    rw [← restTail_remnant hwhole] at htiles
    exact (tiles_append.mp htiles).1.span_mod
  have hal := hl.aligned
  rw [hends] at hmod hfloor
  simp only [blockUnit, wordSize] at *
  have hq : Piece.Whole ⟨gained + freeTail blocks, .free⟩ :=
    ⟨hpos, by simp only [blockUnit]; omega⟩
  have hmark := Block.mark_runs (h.start + span (restTail blocks)) hl.toSited hq (by omega)
    (by simp only; omega)
  have htiles := Memory.tiles_mark (h.start + span (restTail blocks)) hq
    (by simp only [Piece.bits, Status.bits]; omega) h.memory
  have hsame := Memory.mark_sameOutside (h.start + span (restTail blocks)) hq h.memory
  have hend : h.start + span (restTail blocks) + (gained + freeTail blocks) = h.stop + gained := by
    omega
  refine ⟨(h.memory.mark (h.start + span (restTail blocks))
    ⟨gained + freeTail blocks, .free⟩).setWord (h.stop + gained) Tag.sentinel.bits, ?_, ?_, ?_⟩
  · unfold annex
    apply (Action.Runs.get h).andThen
    apply (Action.Runs.lift (endSentinel_eq (by simp only [wordSize]; omega)) h).andThen
    simp only [wordSize, hends]
    apply (Action.Runs.lift (Word.sub_of_le (Nat.le_add_right _ _)) h).andThen
    rw [Nat.add_sub_cancel_left]
    apply lastFree_runs hl (by omega)
    apply hmark.andThen
    refine ((hl.toSited.withMemory _).store_runs _ (Or.inl ?_) ?_).andThen ?_
    · simp only [withMemory_start]
      omega
    · simp only [withMemory_segment, wordSize]
      omega
    · refine (Action.Runs.modify rfl rfl).andThen ?_
      exact Action.Runs.pure _ _
  · refine ⟨⟨hl.aligned, hl.base_lt, hl.stop_lt⟩, ?_, ?_, ?_⟩
    · have hchained : Chained h.memory h.start (restTail blocks ++ remnant (freeTail blocks)) := by
        rw [restTail_remnant hwhole]
        exact hl.chained
      refine hchained.endWith _ (by simp only [wordSize]; omega) ?_ ?_ ?_
      · intro a _ ha
        change (Memory.setWord _ _ _).read a = _
        rw [Memory.read_setWord, if_neg (by simp only [wordSize]; omega), hsame a (Or.inl ha)]
      · refine htiles.congr fun a _ ha => ?_
        simp only [span_cons, span_nil] at ha
        change (Memory.setWord _ _ _).read a = _
        rw [Memory.read_setWord, if_neg (by simp only [wordSize]; omega)]
      · simp only [span_cons, span_nil, Nat.add_zero, hend]
        exact Memory.word_setWord _ _ _
    · change h.start + span _ = h.stop + gained
      simp only [span_append, span_cons, span_nil]
      omega
    · change h.stop + gained + wordSize ≤ Segment.stop h.segment
      simp only [wordSize]
      omega
  · intro a ha
    rw [Memory.read_setWord, if_neg (by simp only [wordSize]; omega), hsame a (Or.inl ha)]

lemma Sound.ne_nil (hs : h.Sound P blocks) : blocks ≠ [] := by
  rintro rfl
  have hstop := hs.stop_eq
  have hstart := hs.start_lt
  have hfloor := hs.floor_le
  simp only [span_nil, minBlockSize] at *
  omega

lemma Sound.withPlacement {p : Placement} (hs : h.Sound P blocks)
    (hp : p.PointsInto (heads h.start blocks)) : (h.withPlacement p).Sound P blocks :=
  ⟨hs.toLaid.withPlacement p, hs.valid, hs.merged, hp, hs.floor_mod, hs.start_lt, hs.floor_le,
    hs.chunk_mod, hs.ends⟩

/-- Whole units above the break are whole units above the chain. -/
lemma Sound.ends_grown (hs : h.Sound P blocks) (hgained : gained % blockUnit = 0) :
    Word.floorUnit (Segment.stop h.segment + gained - wordSize) = h.stop + gained := by
  have hends := hs.ends
  have hle := hs.stop_le
  unfold Word.floorUnit at hends ⊢
  simp only [blockUnit, wordSize] at *
  omega

lemma Sound.request_mod (hs : h.Sound P blocks) (hsize : size % blockUnit = 0) :
    max h.chunkSize size % blockUnit = 0 := by
  rcases Nat.le_total h.chunkSize size with hmax | hmax
  · rwa [Nat.max_eq_right hmax]
  · rw [Nat.max_eq_left hmax]
    exact hs.chunk_mod

lemma Sound.annexed {m : Memory} (hs : h.Sound P blocks) {move : Segment.Move σ}
    (hvalid : P move.segment)
    (hends : Word.floorUnit (Segment.stop move.segment - wordSize) = h.stop + gained)
    (hlaid : (((h.answered move).withMemory m).withStop (h.stop + gained)).Laid
      (restTail blocks ++ [⟨gained + freeTail blocks, .free⟩])) :
    (((h.answered move).withMemory m).withStop (h.stop + gained)).Sound P
      (restTail blocks ++ [⟨gained + freeTail blocks, .free⟩]) := by
  have hfloor := hs.floor_le
  refine ⟨hlaid, hvalid, hs.merged.insert (gained + freeTail blocks) List.isChain_nil, ?_,
    hs.floor_mod, hs.start_lt, ?_, hs.chunk_mod, hends.symm⟩
  · intro c hc
    have hmem := hs.cursor c hc
    change c ∈ heads h.start _
    rw [← restTail_remnant fun p hp => hs.chained.tiles.whole hp, heads_append] at hmem
    rw [heads_append]
    rcases List.mem_append.mp hmem with hrest | hlast
    · exact List.mem_append_left _ hrest
    · -- the free block at the end keeps its header when it grows
      apply List.mem_append_right _
      unfold remnant at hlast
      split at hlast
      next => simpa using hlast
      next => simp at hlast
  · change h.floor ≤ h.stop + gained
    omega

/-- A segment that granted more bytes, from which the free block at the end gets some. -/
theorem Sound.annex_runs {move : Segment.Move σ} (hs : h.Sound P blocks) (hvalid : P move.segment)
    (hlt : Segment.stop move.segment < Word.limit)
    (hbase : Segment.start move.segment = Segment.start h.segment)
    (hup : Segment.stop h.segment ≤ Segment.stop move.segment)
    (hkept : ∀ a, Segment.firstWord h.segment ≤ a → a < Segment.stop h.segment →
      move.memory.read a = h.memory.read a)
    (hends : Word.floorUnit (Segment.stop move.segment - wordSize) = h.stop + gained)
    (hpos : 0 < gained + freeTail blocks) :
    ∃ h', Action.Runs annex (h.answered move)
        (h.start + span (restTail blocks), gained + freeTail blocks) h' [] ∧
      h'.Sound P (restTail blocks ++ [⟨gained + freeTail blocks, .free⟩]) ∧ h.Akin h' ∧
      h.Spares h' (taken h.start blocks) ∧ h'.segment = move.segment ∧
      h'.stop = h.stop + gained ∧ h'.placement = h.placement := by
  have hfirst := hs.toSited.firstWord_le
  have hle := hs.stop_le
  have hspares := hs.spares_answered hkept
  have hlaid := hs.toLaid.answered move hbase (by omega) hlt fun a ha ha' =>
    hkept a (by omega) (by omega)
  obtain ⟨m, hannex, hlaid', hsame⟩ := Arena.annex_runs hlaid hends hpos
  refine ⟨_, hannex, hs.annexed hvalid hends hlaid', ⟨rfl, rfl, rfl, rfl, rfl⟩, ?_, rfl, rfl, rfl⟩
  rintro ⟨b, n⟩ hb a ha ha'
  have hmem := hb
  rw [← taken_restTail] at hmem
  have hin := le_of_mem_taken hmem
  have hsame' := hsame a (by change a < h.start + _; simp only at ha'; omega)
  change m.read a = h.memory.read a
  rw [hsame']
  exact hspares _ hb a ha ha'

/-- A round whose request is refused is the last one. -/
lemma enlargeWithin_stops (rounds : Nat)
    (hstart : Segment.start (Segment.grow (max h.chunkSize size) h.segment h.memory).segment =
      Segment.start h.segment)
    (hanswer : (Segment.grow (max h.chunkSize size) h.segment h.memory).refusal ≠ none) :
    Action.Runs (enlargeWithin size (rounds + 1)) h none
      (h.answered (Segment.grow (max h.chunkSize size) h.segment h.memory))
      [.grow (max h.chunkSize size)] := by
  have hgrow := Action.Runs.grow (max h.chunkSize size) hstart
  obtain ⟨error, herror⟩ := Option.ne_none_iff_exists'.mp hanswer
  rw [herror] at hgrow
  unfold enlargeWithin
  apply (Action.Runs.get h).andThen
  apply hgrow.thenQuiet
  exact (Action.Runs.log _ _ _).andThen (Action.Runs.pure _ _)

/-- A round whose request is granted ends as what follows it does. -/
lemma enlargeWithin_goes (rounds : Nat) {block total : Nat} {h' : Arena σ}
    {rest : Action σ (Option Nat)}
    (hstart : Segment.start (Segment.grow (max h.chunkSize size) h.segment h.memory).segment =
      Segment.start h.segment)
    (hanswer : (Segment.grow (max h.chunkSize size) h.segment h.memory).refusal = none)
    (hannex : Action.Runs annex
      (h.answered (Segment.grow (max h.chunkSize size) h.segment h.memory)) (block, total) h' [])
    (hrest : rest = if size ≤ total then pure (some block) else enlargeWithin size rounds) :
    (∀ r h'' asked, Action.Runs rest h' r h'' asked →
        Action.Runs (enlargeWithin size (rounds + 1)) h r h''
          (.grow (max h.chunkSize size) :: asked)) ∧
      ∀ fault, (rest h').result = .error fault →
        (enlargeWithin size (rounds + 1) h).result = .error fault := by
  have hgrow := Action.Runs.grow (max h.chunkSize size) hstart
  rw [hanswer] at hgrow
  subst hrest
  constructor
  · intro r h'' asked hrest
    unfold enlargeWithin
    apply (Action.Runs.get h).andThen
    apply hgrow.bind
    exact hannex.andThen ((Action.Runs.note _ _ _).andThen hrest)
  · intro fault hfault
    unfold enlargeWithin
    apply (Action.Runs.get h).bindError
    apply hgrow.bindError
    exact hannex.bindError ((Action.Runs.note _ _ _).bindError hfault)

/-- A request that is refused ends the growing. -/
lemma enlargeWithin_refused (rounds : Nat) (hP : Segment.Loose P) (hs : h.Sound P blocks)
    (hanswer : (Segment.grow (max h.chunkSize size) h.segment h.memory).refusal ≠ none) :
    Leads P (enlargeWithin size (rounds + 1)) h none
      (h.answered (Segment.grow (max h.chunkSize size) h.segment h.memory))
      [.grow (max h.chunkSize size)] blocks (taken h.start blocks) := by
  have hvalid := hs.valid
  have hstart := hP.grow_start (max h.chunkSize size) h.memory hvalid
  have hafter := hP.grow_valid (max h.chunkSize size) h.memory hvalid
  have hkept := hP.grow_kept (max h.chunkSize size) h.memory hvalid
  have hrefused := hP.grow_refused (max h.chunkSize size) h.memory hvalid hanswer
  exact ⟨enlargeWithin_stops rounds hstart hanswer,
    hs.answered hafter (hP.stop_lt hafter) hstart hrefused hkept, ⟨rfl, rfl, rfl, rfl, rfl⟩,
    hs.spares_answered hkept⟩

/-- A request that is granted makes the free block at the end larger, and that is enough or leads to
the next request. -/
lemma enlargeWithin_granted (rounds : Nat) (hP : Segment.Loose P) (hs : h.Sound P blocks)
    (hanswer : (Segment.grow (max h.chunkSize size) h.segment h.memory).refusal = none)
    (hends : Word.floorUnit (Segment.stop
        (Segment.grow (max h.chunkSize size) h.segment h.memory).segment - wordSize) =
      h.stop + gained)
    (hpos : 0 < gained + freeTail blocks) :
    ∃ h', h'.Sound P (restTail blocks ++ [⟨gained + freeTail blocks, .free⟩]) ∧ h.Akin h' ∧
      h.Spares h' (taken h.start blocks) ∧
      h'.segment = (Segment.grow (max h.chunkSize size) h.segment h.memory).segment ∧
      h'.stop = h.stop + gained ∧ h'.placement = h.placement ∧
      ∀ rest, rest = (if size ≤ gained + freeTail blocks
          then pure (some (h.start + span (restTail blocks))) else enlargeWithin size rounds) →
        (∀ r h'' asked, Action.Runs rest h' r h'' asked →
          Action.Runs (enlargeWithin size (rounds + 1)) h r h''
            (.grow (max h.chunkSize size) :: asked)) ∧
        ∀ fault, (rest h').result = .error fault →
          (enlargeWithin size (rounds + 1) h).result = .error fault := by
  have hvalid := hs.valid
  have hstart := hP.grow_start (max h.chunkSize size) h.memory hvalid
  have hafter := hP.grow_valid (max h.chunkSize size) h.memory hvalid
  obtain ⟨h', hannex, hsound, hakin, hspares, hsegment, hstop, hplacement⟩ :=
    hs.annex_runs hafter (hP.stop_lt hafter) hstart (hP.grow_granted _ _ hvalid hanswer)
      (hP.grow_kept (max h.chunkSize size) h.memory hvalid) hends hpos
  exact ⟨h', hsound, hakin, hspares, hsegment, hstop, hplacement,
    fun _ => enlargeWithin_goes rounds hstart hanswer hannex⟩

/-- What growing an arena for a block of `size` bytes leads to. -/
inductive Enlarged (h : Arena σ) (size : Nat) (blocks : List Piece) (h' : Arena σ) :
    Option Nat → List Piece → Prop where
  | refused
      (answer : (Segment.grow (max h.chunkSize size) h.segment h.memory).refusal ≠ none)
      (arena : h' = h.answered (Segment.grow (max h.chunkSize size) h.segment h.memory)) :
      Enlarged h size blocks h' none blocks
  | granted
      (answer : (Segment.grow (max h.chunkSize size) h.segment h.memory).refusal = none)
      (segment : Segment.stop h'.segment = Segment.stop h.segment + max h.chunkSize size)
      (stop : h'.stop = h.stop + max h.chunkSize size)
      (placement : h'.placement = h.placement) :
      Enlarged h size blocks h' (some (h.start + span (restTail blocks)))
        (restTail blocks ++ [⟨max h.chunkSize size + freeTail blocks, .free⟩])

/-- An exact provider is asked once. -/
theorem enlarge_runs (hP : Segment.Exact P) (hs : h.Sound P blocks) (hpos : 0 < size)
    (hsize : size % blockUnit = 0) :
    ∃ r h' blocks', Leads P (enlarge size) h r h' [.grow (max h.chunkSize size)] blocks'
        (taken h.start blocks) ∧
      Enlarged h size blocks h' r blocks' := by
  have hloop : enlarge (σ := σ) size = enlargeWithin size ((Word.limit - 1) + 1) := rfl
  rw [hloop]
  by_cases hanswer : (Segment.grow (max h.chunkSize size) h.segment h.memory).refusal = none
  · have hgranted := hP.grow_granted _ _ hs.valid hanswer
    have hends : Word.floorUnit (Segment.stop
        (Segment.grow (max h.chunkSize size) h.segment h.memory).segment - wordSize) =
        h.stop + max h.chunkSize size := by
      rw [hgranted, hs.ends_grown (hs.request_mod hsize)]
    obtain ⟨h', hsound, hakin, hspares, hsegment, hstop, hplacement, hrest⟩ :=
      enlargeWithin_granted (Word.limit - 1) hP.loose hs hanswer hends (by omega)
    refine ⟨some (h.start + span (restTail blocks)), h', _, ⟨?_, hsound, hakin, hspares⟩,
      .granted hanswer (by rw [hsegment, hgranted]) hstop hplacement⟩
    refine (hrest _ rfl).1 _ _ _ ?_
    rw [if_pos (by omega)]
    exact Action.Runs.pure _ _
  · exact ⟨none, _, blocks, enlargeWithin_refused _ hP.loose hs hanswer, .refused hanswer rfl⟩

end Arena
end BlockHeap
