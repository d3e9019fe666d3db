import BlockHeap.Proofs.Release

/-!
# Sound arenas

`h.Sound P blocks` is what every operation on an arena with an exact provider keeps: the chain
`blocks` is laid out, no two free blocks are neighbours, the cursor is the address of a block, and
the arena ends where its segment and its floor let it. `h.Spares h' blocks` says that an operation
left the bytes of some blocks alone.
-/

namespace BlockHeap

variable {σ : Type}

/-- The bytes of these blocks, given by their addresses and sizes, stay as they are. -/
def Arena.Spares (h h' : Arena σ) (blocks : List (Nat × Nat)) : Prop :=
  ∀ b ∈ blocks, ∀ a, b.1 ≤ a → a < b.1 + b.2 → h'.memory.read a = h.memory.read a

namespace Arena

variable {h h₁ h₂ : Arena σ}

lemma Spares.refl (h : Arena σ) (xs : List (Nat × Nat)) : h.Spares h xs :=
  fun _ _ _ _ _ => rfl

lemma Spares.trans {xs ys : List (Nat × Nat)} (hx : h.Spares h₁ xs) (hy : h₁.Spares h₂ ys)
    (hsub : xs ⊆ ys) : h.Spares h₂ xs :=
  fun b hb a ha ha' => (hy b (hsub hb) a ha ha').trans (hx b hb a ha ha')

lemma Spares.mono {xs ys : List (Nat × Nat)} (hy : h.Spares h₁ ys) (hsub : xs ⊆ ys) :
    h.Spares h₁ xs :=
  fun b hb => hy b (hsub hb)

/-- Allocated blocks on both sides of the bytes that change are spared. -/
lemma spares_of_same {pre post : List Piece} {size : Nat}
    (hsame : ∀ a, h.start ≤ a → a < h.start + span pre + size + span post →
      a < h.start + span (restTail pre) ∨ h.start + span pre + size + freeHead post ≤ a →
      h₁.memory.read a = h.memory.read a) :
    h.Spares h₁ (taken h.start pre ++ taken (h.start + span pre + size) post) := by
  have hpre := span_restTail pre
  have hpost := span_restHead post
  rintro ⟨b, n⟩ hb a ha ha'
  simp only at ha ha'
  rcases List.mem_append.mp hb with hb | hb
  · rw [← taken_restTail] at hb
    have hle := le_of_mem_taken hb
    exact hsame a (by omega) (by omega) (Or.inl (by omega))
  · rw [← taken_restHead] at hb
    have hle := le_of_mem_taken hb
    exact hsame a (by omega) (by omega) (Or.inr (by omega))

end Arena

variable [Segment σ]

structure Arena.Sound (P : σ → Prop) (h : Arena σ) (blocks : List Piece) : Prop
    extends h.Laid blocks where
  valid : P h.segment
  merged : Merged blocks
  cursor : h.placement.PointsInto (heads h.start blocks)
  floor_mod : h.floor % blockUnit = 0
  start_lt : h.start + minBlockSize ≤ h.floor
  floor_le : h.floor ≤ h.stop
  chunk_mod : h.chunkSize % blockUnit = 0
  ends : h.stop = Word.floorUnit (Segment.stop h.segment - wordSize)

/-- The free block that a block of `size` bytes between `pre` and `post` becomes. -/
def joined (pre : List Piece) (size : Nat) (post : List Piece) : Nat :=
  size + freeTail pre + freeHead post

namespace Arena

variable {P : σ → Prop} {h : Arena σ} {pre post : List Piece} {size : Nat}

/-- Makes `block` free, merges it with its free neighbours, and takes the cursor out of what vanishes;
the address and the size of the block that this leaves. -/
def gather (block : Nat) : Action σ (Nat × Nat) := do
  let size ← Block.size block
  Block.mark block size .free
  let (block, size) ← mergeBefore block size
  let size ← mergeAfter block size
  pullCursor block size
  return (block, size)

/-- Releasing a block merges it with its free neighbours and ends with trimming the result. -/
lemma release_eq (block : Nat) :
    release block = (gather block >>= fun last => trim last.1 last.2 : Action σ Unit) := by
  unfold release gather
  simp only [bind_assoc, pure_bind]

theorem gather_runs (hs : h.Sound P (pre ++ ⟨size, .allocated⟩ :: post)) :
    ∃ h₁, Action.Runs (gather (h.start + span pre)) h
        (h.start + span (restTail pre), joined pre size post) h₁ [] ∧
      h₁.Sound P (restTail pre ++ ⟨joined pre size post, .free⟩ :: restHead post) ∧
      h.Akin h₁ ∧ h₁.segment = h.segment ∧ h₁.stop = h.stop ∧
      h₁.placement = h.placement.pull (h.start + span (restTail pre)) (joined pre size post) ∧
      Memory.SameOutside (h.start + span (restTail pre)) (h.start + span pre + size + freeHead post)
        h.memory h₁.memory := by
  have hl : h.Laid (pre ++ [⟨size, .allocated⟩] ++ post) := by simpa using hs.toLaid
  have hblock := hs.toLaid.block_le
  have hlt := hs.toLaid.stop_lt_limit
  have hspre := span_restTail pre
  have hspost := span_restHead post
  have hmerged := merged_allocated.mp hs.merged
  simp only at hblock
  obtain ⟨m₁, hmark, hlaid₁, hsame₁⟩ := hl.mark_runs ⟨size, .free⟩ hs.toLaid.whole (by simp)
  have hlaid₁' : (h.withMemory m₁).Laid (pre ++ ⟨size, .free⟩ :: post) := by simpa using hlaid₁
  obtain ⟨m₂, hbefore, hlaid₂, hsame₂⟩ := mergeBefore_runs hlaid₁'
  obtain ⟨m₃, hafter, hlaid₃, hsame₃⟩ := mergeAfter_runs hlaid₂
  simp only [withMemory_start, withMemory_memory, withMemory_withMemory, span_cons, span_nil,
    Nat.add_zero] at hbefore hafter hsame₁ hsame₂ hsame₃ hlaid₃
  have hwhole : ∀ p ∈ pre ++ ⟨size, .allocated⟩ :: post, p.Whole := fun p hp =>
    hs.chained.tiles.whole hp
  have hpull := pullCursor_runs (h := h.withMemory m₃) (h.start + span (restTail pre))
    (joined pre size post) (by unfold joined; omega)
  have hlaid := hlaid₃.withPlacement
    (h.placement.pull (h.start + span (restTail pre)) (joined pre size post))
  refine ⟨(h.withMemory m₃).withPlacement
      (h.placement.pull (h.start + span (restTail pre)) (joined pre size post)), ?_, ?_,
    ⟨rfl, rfl, rfl, rfl, Placement.pull_policy _ _ _⟩, rfl, rfl, rfl, ?_⟩
  · unfold gather
    apply hs.toLaid.size_runs.andThen
    apply hmark.andThen
    apply hbefore.andThen
    apply hafter.andThen
    exact hpull.andThen (Action.Runs.pure _ _)
  · refine ⟨hlaid, hs.valid, hmerged.1.insert _ hmerged.2, ?_, hs.floor_mod, hs.start_lt,
      hs.floor_le, hs.chunk_mod, hs.ends⟩
    have hcursor := hs.cursor
    -- the headers that vanish are those of the pieces that `joined` adds up
    have hchain : pre ++ ⟨size, .allocated⟩ :: post =
        restTail pre ++ (remnant (freeTail pre) ++ [⟨size, .allocated⟩] ++
          remnant (freeHead post)) ++ restHead post := by
      conv_lhs => rw [← restTail_remnant fun p hp => hwhole p (List.mem_append_left _ hp),
        ← remnant_restHead fun p hp => hwhole p
          (List.mem_append_right _ (List.mem_cons_of_mem _ hp))]
      simp
    rw [hchain] at hcursor
    have hpulled := hcursor.pull (q := ⟨joined pre size post, .free⟩)
      (by simp only [joined, span_append, span_remnant, span_cons, span_nil]; omega) ?_
    · simpa using hpulled
    · intro r hr
      exact (hwhole r (by rw [hchain]; simp only [List.mem_append] at hr ⊢; tauto)).1
  · apply (hsame₁.mono (by omega) (by omega)).trans
    apply (hsame₂.mono (by omega) (by omega)).trans
    exact hsame₃.mono (by omega) (by omega)

/-- What trimming does to a free block of `size` bytes between `pre` and `post`, with the chain that
it leaves behind and what it asks the segment for. -/
inductive Trimmed (h : Arena σ) (pre : List Piece) (size : Nat) (post : List Piece) (h' : Arena σ) :
    List Piece → List Event → Prop where
  | kept (idle : post ≠ [] ∨ size < h.shrinkThreshold ∨ h.floor = h.stop)
      (segment : h'.segment = h.segment) (stop : h'.stop = h.stop) :
      Trimmed h pre size post h' (pre ++ ⟨size, .free⟩ :: post) []
  | refused (m : Memory) (last : post = []) (large : h.shrinkThreshold ≤ size)
      (above : h.floor < h.stop)
      (answer : (Segment.shrink (h.surplus (h.start + span pre) size) h.segment m).refusal ≠ none)
      (segment : Segment.stop h'.segment = Segment.stop h.segment) (stop : h'.stop = h.stop) :
      Trimmed h pre size post h' (pre ++ [⟨size, .free⟩])
        [.shrink (h.surplus (h.start + span pre) size)]
  | granted (m : Memory) (last : post = []) (large : h.shrinkThreshold ≤ size)
      (above : h.floor < h.stop)
      (answer : (Segment.shrink (h.surplus (h.start + span pre) size) h.segment m).refusal = none)
      (segment : Segment.stop h'.segment + h.surplus (h.start + span pre) size =
        Segment.stop h.segment)
      (stop : h'.stop = max h.floor (h.start + span pre)) :
      Trimmed h pre size post h' (pre ++ remnant (h.floor - (h.start + span pre)))
        [.shrink (h.surplus (h.start + span pre) size)]

lemma Trimmed.taken {h' : Arena σ} {blocks : List Piece} {asked : List Event}
    (ht : Trimmed h pre size post h' blocks asked) (a : Nat) :
    taken a blocks = taken a pre ++ taken (a + span pre + size) post := by
  cases ht with
  | kept => simp
  | refused m last => simp [last]
  | granted m last => simp [last]

/-- Only the bounds, the threshold and the segment matter for trimming. -/
lemma Trimmed.of_akin {h₁ h' : Arena σ} {blocks : List Piece} {asked : List Event}
    (ht : Trimmed h₁ pre size post h' blocks asked) (ha : h.Akin h₁)
    (hsegment : h₁.segment = h.segment) (hstop : h₁.stop = h.stop) :
    Trimmed h pre size post h' blocks asked := by
  have hsurplus : h₁.surplus (h₁.start + span pre) size = h.surplus (h.start + span pre) size := by
    unfold surplus
    rw [ha.floor, ha.start]
  cases ht with
  | kept idle segment stop =>
    rw [ha.shrinkThreshold, ha.floor, hstop] at idle
    exact .kept idle (segment.trans hsegment) (stop.trans hstop)
  | refused m last large above answer segment stop =>
    rw [ha.shrinkThreshold] at large
    rw [ha.floor, hstop] at above
    rw [hsurplus] at answer ⊢
    rw [hsegment] at answer segment
    exact .refused m last large above answer segment (stop.trans hstop)
  | granted m last large above answer segment stop =>
    rw [ha.shrinkThreshold] at large
    rw [ha.floor, hstop] at above
    rw [hsurplus] at answer segment ⊢
    rw [hsegment] at answer segment
    rw [ha.floor, ha.start] at stop ⊢
    exact .granted m last large above answer segment stop

/-- The action runs to a sound arena with another chain and spares the bytes of some blocks. -/
structure Leads {α : Type} (P : σ → Prop) (m : Action σ α) (h : Arena σ) (x : α) (h' : Arena σ)
    (asked : List Event) (blocks : List Piece) (spared : List (Nat × Nat)) : Prop where
  runs : Action.Runs m h x h' asked
  sound : h'.Sound P blocks
  akin : h.Akin h'
  spares : h.Spares h' spared

/-- The action runs from a sound arena to a sound arena; it gives the allocated blocks `lost` up for
the blocks `gained`, and leaves the bytes of all others alone. -/
def Trades {α : Type} (P : σ → Prop) (m : Action σ α) (h : Arena σ) (blocks : List Piece) (x : α)
    (h' : Arena σ) (asked : List Event) (blocks' : List Piece) (lost gained : List (Nat × Nat)) :
    Prop :=
  ∃ rest, Leads P m h x h' asked blocks' rest ∧ (taken h.start blocks).Perm (lost ++ rest) ∧
    (taken h.start blocks').Perm (gained ++ rest)

/-- An action that changes nothing trades nothing. -/
lemma Sound.stay {α : Type} {m : Action σ α} {x : α} {blocks : List Piece} (hs : h.Sound P blocks)
    (hm : Action.Runs m h x h []) : Trades P m h blocks x h [] blocks [] [] :=
  ⟨taken h.start blocks, ⟨hm, hs, Akin.refl h, Spares.refl h _⟩, List.Perm.refl _, List.Perm.refl _⟩

/-- An action that runs as another one does trades what that trades. -/
lemma Trades.of_runs {α β : Type} {m : Action σ α} {m' : Action σ β} {x : α} {y : β} {h' : Arena σ}
    {asked : List Event} {blocks blocks' : List Piece} {lost gained : List (Nat × Nat)}
    (ht : Trades P m h blocks x h' asked blocks' lost gained)
    (hm : Action.Runs m h x h' asked → Action.Runs m' h y h' asked) :
    Trades P m' h blocks y h' asked blocks' lost gained := by
  obtain ⟨rest, hl, hlost, hgained⟩ := ht
  exact ⟨rest, ⟨hm hl.runs, hl.sound, hl.akin, hl.spares⟩, hlost, hgained⟩

/-- What follows a trade without a request or a change belongs to it. -/
lemma Trades.andPure {α β : Type} {m : Action σ α} {f : α → Action σ β} {x : α} {y : β}
    {h' : Arena σ} {asked : List Event} {blocks blocks' : List Piece} {lost gained : List (Nat × Nat)}
    (ht : Trades P m h blocks x h' asked blocks' lost gained) (hf : Action.Runs (f x) h' y h' []) :
    Trades P (m >>= f) h blocks y h' asked blocks' lost gained :=
  ht.of_runs fun hruns => hruns.thenQuiet hf

/-- A step before a trade that changes nothing belongs to it. -/
lemma trades_after {α β : Type} {m : Action σ α} {f : α → Action σ β} {x : α} {y : β}
    {h' : Arena σ} {asked : List Event} {blocks blocks' : List Piece} {lost gained : List (Nat × Nat)}
    (hm : Action.Runs m h x h []) (ht : Trades P (f x) h blocks y h' asked blocks' lost gained) :
    Trades P (m >>= f) h blocks y h' asked blocks' lost gained :=
  ht.of_runs hm.andThen

lemma Sound.answered {blocks : List Piece} {move : Segment.Move σ} (hs : h.Sound P blocks)
    (hvalid : P move.segment) (hlt : Segment.stop move.segment < Word.limit)
    (hbase : Segment.start move.segment = Segment.start h.segment)
    (hstop : Segment.stop move.segment = Segment.stop h.segment)
    (hm : ∀ a, Segment.firstWord h.segment ≤ a → a < Segment.stop h.segment →
      move.memory.read a = h.memory.read a) : (h.answered move).Sound P blocks := by
  have hfirst := hs.toSited.firstWord_le
  have hle := hs.stop_le
  have hends := hs.ends
  rw [← hstop] at hle hends
  have hlaid := hs.toLaid.answered _ hbase hle hlt fun a ha ha' =>
    hm a (by simp only [wordSize] at *; omega) (by rw [hstop] at hle; omega)
  exact ⟨hlaid, hvalid, hs.merged, hs.cursor, hs.floor_mod, hs.start_lt, hs.floor_le, hs.chunk_mod,
    hends⟩

lemma Sound.spares_answered {blocks : List Piece} {move : Segment.Move σ} (hs : h.Sound P blocks)
    (hm : ∀ a, Segment.firstWord h.segment ≤ a → a < Segment.stop h.segment →
      move.memory.read a = h.memory.read a) : h.Spares (h.answered move) (taken h.start blocks) := by
  have hfirst := hs.toSited.firstWord_le
  have hle := hs.stop_le
  have hstop := hs.stop_eq
  rintro ⟨b, n⟩ hb a ha ha'
  have hin := le_of_mem_taken hb
  exact hm a (by simp only at ha; omega) (by simp only at ha'; omega)

lemma Sound.trimmed {h' : Arena σ} (hs : h.Sound P (pre ++ [⟨size, .free⟩]))
    (habove : h.floor < h.stop) (hvalid : P h'.segment)
    (hlaid : h'.Laid (pre ++ remnant (h.floor - (h.start + span pre)))) (hakin : h.Akin h')
    (hsegment : Segment.stop h'.segment + h.surplus (h.start + span pre) size =
      Segment.stop h.segment)
    (hstop : h'.stop = max h.floor (h.start + span pre))
    (hplacement : h'.placement = h.placement.clip h'.stop) :
    h'.Sound P (pre ++ remnant (h.floor - (h.start + span pre))) := by
  have hsum := surplus_add hs.toLaid habove
  have hal := hs.aligned
  have hfloor := hs.floor_mod
  have hpre : span pre % blockUnit = 0 := (tiles_append.mp hs.chained.tiles).1.span_mod
  have hends := hs.ends
  have hstart := hs.start_lt
  refine ⟨hlaid, hvalid, ?_, ?_, by rw [hakin.floor]; exact hfloor,
    by rw [hakin.floor, hakin.start]; exact hs.start_lt, by rw [hakin.floor, hstop]; omega,
    by rw [hakin.chunkSize]; exact hs.chunk_mod, ?_⟩
  · unfold remnant
    split
    next => exact hs.merged.resizeLast
    next =>
      have hm := hs.merged
      unfold Merged at hm ⊢
      rw [List.isChain_append] at hm
      rw [List.append_nil]
      exact hm.1
  · intro c hc
    rw [hplacement] at hc
    obtain ⟨hold, hlt⟩ := Placement.cursor_clip hc
    have hmem := hs.cursor c hold
    rw [hakin.start]
    simp only [heads_append, heads_cons, heads_nil, List.mem_append, List.mem_singleton]
      at hmem ⊢
    rcases hmem with hmem | rfl
    · exact Or.inl hmem
    · -- a cursor at the block survives only if something is left of it
      right
      rw [hstop] at hlt
      rw [remnant_of_pos (by omega)]
      simp
  · unfold Word.floorUnit at hends ⊢
    simp only [blockUnit, wordSize, minBlockSize] at *
    omega

/-- A request to take the surplus back that is refused leaves the arena as it was. -/
lemma trim_refused_leads (hP : Segment.Exact P) (hs : h.Sound P (pre ++ [⟨size, .free⟩]))
    (hlarge : h.shrinkThreshold ≤ size) (habove : h.floor < h.stop)
    (hanswer : (Segment.shrink (h.surplus (h.start + span pre) size) h.segment h.memory).refusal ≠
      none) :
    Leads P (trim (h.start + span pre) size) h ()
        (h.answered (Segment.shrink (h.surplus (h.start + span pre) size) h.segment h.memory))
        [.shrink (h.surplus (h.start + span pre) size)] (pre ++ [⟨size, .free⟩])
        (taken h.start pre) ∧
      Segment.stop (Segment.shrink (h.surplus (h.start + span pre) size) h.segment
        h.memory).segment = Segment.stop h.segment := by
  have hvalid := hs.valid
  have hstart := hP.shrink_start (h.surplus (h.start + span pre) size) h.memory hvalid
  have hafter := hP.shrink_valid (h.surplus (h.start + span pre) size) h.memory hvalid
  have hkept := hP.shrink_kept (h.surplus (h.start + span pre) size) h.memory hvalid
  have hrefused := hP.shrink_refused (h.surplus (h.start + span pre) size) h.memory hvalid hanswer
  rw [hrefused] at hkept
  have hspares := hs.spares_answered hkept
  simp only [taken_append, taken_free, taken_nil, List.append_nil] at hspares
  obtain ⟨error, herror⟩ := Option.ne_none_iff_exists'.mp hanswer
  exact ⟨⟨trim_refused_runs hP hs.toLaid hvalid hlarge habove herror,
    hs.answered hafter (hP.stop_lt hafter) hstart hrefused hkept, ⟨rfl, rfl, rfl, rfl, rfl⟩,
    hspares⟩, hrefused⟩

/-- A request to take the surplus back that is granted cuts the arena off there. -/
lemma trim_granted_leads (hP : Segment.Exact P) (hs : h.Sound P (pre ++ [⟨size, .free⟩]))
    (hlarge : h.shrinkThreshold ≤ size) (habove : h.floor < h.stop)
    (hanswer : (Segment.shrink (h.surplus (h.start + span pre) size) h.segment h.memory).refusal =
      none) :
    ∃ h', Leads P (trim (h.start + span pre) size) h () h'
        [.shrink (h.surplus (h.start + span pre) size)]
        (pre ++ remnant (h.floor - (h.start + span pre))) (taken h.start pre) ∧
      Segment.stop h'.segment + h.surplus (h.start + span pre) size = Segment.stop h.segment ∧
      h'.stop = max h.floor (h.start + span pre) ∧ h'.placement = h.placement.clip h'.stop := by
  have hvalid := hs.valid
  have hafter := hP.shrink_valid (h.surplus (h.start + span pre) size) h.memory hvalid
  have hgranted := hP.shrink_granted _ _ hvalid hanswer
  obtain ⟨h', hruns, hlaid, hakin, hsegment, hstop, hplacement, hsame⟩ :=
    trim_granted_runs hP hs.toLaid hvalid hlarge habove hs.floor_mod hanswer
  rw [← hsegment] at hgranted hafter
  refine ⟨h', ⟨hruns, hs.trimmed habove hafter hlaid hakin hgranted hstop hplacement, hakin, ?_⟩,
    hgranted, hstop, hplacement⟩
  rintro ⟨b, n⟩ hb a ha ha'
  have hin := le_of_mem_taken hb
  exact hsame a (by simp only at ha; omega) (by simp only at ha'; omega)

/-- Trimming asks the segment for nothing, or the free block is the last one and goes back. -/
lemma Sound.trim_cases (hs : h.Sound P (pre ++ ⟨size, .free⟩ :: post)) :
    (post ≠ [] ∨ size < h.shrinkThreshold ∨ h.floor = h.stop) ∨
      post = [] ∧ h.shrinkThreshold ≤ size ∧ h.floor < h.stop := by
  have hle := hs.floor_le
  by_cases hlast : post = []
  · by_cases hidle : size < h.shrinkThreshold ∨ h.floor = h.stop
    · exact Or.inl (Or.inr hidle)
    · exact Or.inr ⟨hlast, by omega, by omega⟩
  · exact Or.inl (Or.inl hlast)

theorem trim_runs (hP : Segment.Exact P) (hs : h.Sound P (pre ++ ⟨size, .free⟩ :: post)) :
    ∃ h' asked blocks, Leads P (trim (h.start + span pre) size) h () h' asked blocks
        (taken h.start pre ++ taken (h.start + span pre + size) post) ∧
      Trimmed h pre size post h' blocks asked := by
  rcases hs.trim_cases with hidle | ⟨rfl, hlarge, habove⟩
  · exact ⟨h, [], _, ⟨trim_idle_runs hs.toLaid hidle, hs, Akin.refl h, Spares.refl h _⟩,
      .kept hidle rfl rfl⟩
  · rw [taken_nil, List.append_nil]
    by_cases hanswer :
        (Segment.shrink (h.surplus (h.start + span pre) size) h.segment h.memory).refusal = none
    · obtain ⟨h', hl, hreach, hstop, _⟩ := trim_granted_leads hP hs hlarge habove hanswer
      exact ⟨h', _, _, hl, .granted h.memory rfl hlarge habove hanswer hreach hstop⟩
    · obtain ⟨hl, hreach⟩ := trim_refused_leads hP hs hlarge habove hanswer
      exact ⟨_, _, _, hl, .refused h.memory rfl hlarge habove hanswer hreach rfl⟩

lemma taken_joined (a : Nat) :
    taken a (restTail pre) ++ taken (a + span (restTail pre) + joined pre size post) (restHead post) =
      taken a pre ++ taken (a + span pre + size) post := by
  have hspre := span_restTail pre
  rw [taken_restTail, ← taken_restHead (a + span pre + size)]
  unfold joined
  rw [show a + span (restTail pre) + (size + freeTail pre + freeHead post) =
    a + span pre + size + freeHead post by omega]

theorem release_trades (hP : Segment.Exact P)
    (hs : h.Sound P (pre ++ ⟨size, .allocated⟩ :: post)) :
    ∃ h' asked blocks', Trades P (release (h.start + span pre)) h (pre ++ ⟨size, .allocated⟩ :: post)
        () h' asked blocks' [(h.start + span pre, size)] [] ∧
      Trimmed h (restTail pre) (joined pre size post) (restHead post) h' blocks' asked := by
  have hspre := span_restTail pre
  have hspost := span_restHead post
  obtain ⟨h₁, hgather, hs₁, hakin₁, hsegment₁, hstop₁, _, hsame₁⟩ := gather_runs hs
  have hstart₁ := hakin₁.start
  obtain ⟨h', asked, blocks, htrim, htrimmed⟩ := trim_runs hP hs₁
  have hspared := htrim.spares
  rw [hstart₁, taken_joined] at hspared
  refine ⟨h', asked, blocks, ⟨taken h.start pre ++ taken (h.start + span pre + size) post,
    ⟨?_, htrim.sound, hakin₁.trans htrim.akin, ?_⟩, ?_, ?_⟩,
    htrimmed.of_akin hakin₁ hsegment₁ hstop₁⟩
  · have hruns := htrim.runs
    rw [hstart₁] at hruns
    rw [release_eq]
    exact hgather.andThen hruns
  · exact (spares_of_same fun a _ _ ha => hsame₁ a ha).trans hspared (List.Subset.refl _)
  · exact taken_perm _ _ _ _
  · rw [htrimmed.taken, taken_joined]
    exact List.Perm.refl _

end Arena
end BlockHeap
