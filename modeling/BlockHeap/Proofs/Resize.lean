import BlockHeap.Proofs.Allocate

/-!
# Freeing and resizing

A payload that is freed gives its block up. One that is resized trades its block for one of another
size, at the same address when the block shrinks or when the free block after it is large enough,
and elsewhere otherwise; when there is no room, it keeps the block it has.
-/

namespace BlockHeap

variable {σ : Type} [Segment σ]

/-- The block that a payload had, if its resizing succeeded. -/
def Block.ceded (payload : Option Nat) (block : Nat × Nat) : List (Nat × Nat) :=
  payload.toList.map fun _ => block

namespace Arena

variable {P : σ → Prop} {h : Arena σ} {pre post blocks : List Piece} {size new n k : Nat}

lemma Laid.payload_lt {p : Piece} (hl : h.Laid (pre ++ p :: post)) :
    h.start + span pre + wordSize < Word.limit := by
  have hblock := hl.block_le
  have hlt := hl.stop_lt_limit
  omega

/-- A payload whose block is allocated is freed by releasing that. -/
lemma Laid.free_releases {h' : Arena σ} {asked : List Event}
    (hl : h.Laid (pre ++ ⟨size, .allocated⟩ :: post))
    (hrelease : Action.Runs (release (h.start + span pre)) h () h' asked) :
    Action.Runs (free (some (h.start + span pre + wordSize))) h () h' asked := by
  have hload := hl.load_runs
  simp only [headBits, List.head?_cons, Option.map_some, Option.getD_some] at hload
  unfold free
  apply (Action.Runs.note _ _ h).andThen
  simp only [Block.ofPayload_eq hl.payload_lt]
  apply hload.andThen
  exact (Action.Runs.lift hl.whole.tag_isFree h).andThen hrelease

theorem free_trades (hP : Segment.Exact P) (hs : h.Sound P (pre ++ ⟨size, .allocated⟩ :: post)) :
    ∃ h' asked blocks', Trades P (free (some (h.start + span pre + wordSize))) h
        (pre ++ ⟨size, .allocated⟩ :: post) () h' asked blocks' [(h.start + span pre, size)] [] ∧
      Trimmed h (restTail pre) (joined pre size post) (restHead post) h' blocks' asked := by
  obtain ⟨h', asked, blocks', ht, htrimmed⟩ := release_trades hP hs
  exact ⟨h', asked, blocks', ht.of_runs hs.toLaid.free_releases, htrimmed⟩

/-- A sound arena stays sound when one of its blocks becomes two allocated ones. -/
lemma Sound.halved {m : Memory} {status : Status} (hs : h.Sound P (pre ++ ⟨size, status⟩ :: post))
    (hlt : new < size) (hlaid : (h.withMemory m).Laid
      (pre ++ [⟨new, .allocated⟩, ⟨size - new, .allocated⟩] ++ post)) :
    (h.withMemory m).Sound P
      ((pre ++ [⟨new, .allocated⟩]) ++ ⟨size - new, .allocated⟩ :: post) := by
  have hchain : pre ++ [⟨new, .allocated⟩, ⟨size - new, .allocated⟩] ++ post =
      (pre ++ [⟨new, .allocated⟩]) ++ ⟨size - new, .allocated⟩ :: post := by simp
  have hmerged := hs.merged.sides
  rw [hchain] at hlaid
  refine ⟨hlaid, hs.valid, ?_, ?_, hs.floor_mod, hs.start_lt, hs.floor_le, hs.chunk_mod, hs.ends⟩
  · have hinit : Merged (pre ++ [⟨new, .allocated⟩]) :=
      merged_allocated.mpr ⟨hmerged.1, List.isChain_nil⟩
    exact merged_allocated.mpr ⟨hinit, hmerged.2⟩
  · intro c hc
    have hmem := hs.cursor c hc
    rw [← hchain]
    simp only [heads_append, heads_cons, heads_nil, span_append, span_cons, span_nil,
      List.mem_append, List.mem_cons, Nat.add_zero, Nat.add_assoc, withMemory_start] at hmem ⊢
    rcases hmem with hmem | rfl | hmem
    · exact Or.inl (Or.inl hmem)
    · exact Or.inl (Or.inr (Or.inl rfl))
    · right
      rwa [show new + (size - new) = size by omega]

/-- What both halves of an allocated block leave behind once the second is given up. -/
lemma perm_of_halved {rest : List (Nat × Nat)} {a : Nat} (hlt : new < size)
    (hlost : (taken a ((pre ++ [⟨new, .allocated⟩]) ++ ⟨size - new, .allocated⟩ :: post)).Perm
      ((a + span pre + new, size - new) :: rest)) :
    rest.Perm ((a + span pre, new) :: (taken a pre ++ taken (a + span pre + size) post)) := by
  have hsplit := taken_perm a (size - new) (pre ++ [⟨new, .allocated⟩]) post
  have hat : a + span (pre ++ [⟨new, .allocated⟩]) = a + span pre + new := span_step _ _ _
  have hend : a + span pre + new + (size - new) = a + span pre + size := by omega
  have hinit : taken a (pre ++ [⟨new, .allocated⟩]) = taken a pre ++ [(a + span pre, new)] := by
    rw [taken_append, taken_allocated, taken_nil]
  rw [hat, hend, hinit] at hsplit
  have hcancel := (hlost.symm.trans hsplit).cons_inv
  rw [List.append_assoc] at hcancel
  exact hcancel.trans List.perm_middle

/-- Shrinking in place leaves a smaller allocated block behind, whatever the block was before. -/
theorem shrinkInPlace_leads {status : Status} (hP : Segment.Exact P)
    (hs : h.Sound P (pre ++ ⟨size, status⟩ :: post)) (hpos : 0 < new)
    (hunit : new % blockUnit = 0) (hlt : new < size) :
    ∃ h' asked blocks', Leads P (shrinkInPlace (h.start + span pre) size new) h () h' asked blocks'
        (taken h.start pre ++ taken (h.start + span pre + size) post) ∧
      (taken h.start blocks').Perm ((h.start + span pre, new) ::
        (taken h.start pre ++ taken (h.start + span pre + size) post)) ∧
      Trimmed h (pre ++ [⟨new, .allocated⟩]) (size - new + freeHead post) (restHead post) h' blocks'
        asked := by
  have hwhole := hs.toLaid.whole
  have hold := hwhole.2
  have hblock := hs.toLaid.block_le
  have hlimit := hs.toLaid.stop_lt_limit
  simp only [blockUnit] at hold hunit hblock
  obtain ⟨m₁, m₂, hmark₁, hmark₂, hlaid, hsame⟩ := hs.toLaid.split_runs ⟨new, .allocated⟩
    ⟨size - new, .allocated⟩ ⟨hpos, hunit⟩
    ⟨by simp only; omega, by simp only [blockUnit]; omega⟩ (by simp only; omega)
  dsimp only at hsame hmark₁ hmark₂
  obtain ⟨h', asked, blocks', ⟨rest, hl, hlost, hgained⟩, htrimmed⟩ :=
    release_trades hP (hs.halved hlt hlaid)
  have hat : h.start + span (pre ++ [⟨new, .allocated⟩]) = h.start + span pre + new :=
    span_step _ _ _
  simp only [withMemory_start, hat] at hl hlost hgained
  have hrest := perm_of_halved hlt hlost
  have hakin : h.Akin (h.withMemory m₂) := ⟨rfl, rfl, rfl, rfl, rfl⟩
  refine ⟨h', asked, blocks', ⟨?_, hl.sound, hakin.trans hl.akin, ?_⟩, hgained.trans hrest, ?_⟩
  · unfold shrinkInPlace
    apply (Action.Runs.note _ _ h).andThen
    apply hmark₁.andThen
    rw [Word.forward_of_lt (by omega)]
    exact hmark₂.andThen hl.runs
  · have hspan := span_restTail pre
    have hspares : h.Spares (h.withMemory m₂)
        (taken h.start pre ++ taken (h.start + span pre + size) post) :=
      spares_of_same fun a _ _ ha => hsame a (by omega)
    refine hspares.trans hl.spares fun c hc => ?_
    exact hrest.mem_iff.mpr (List.mem_cons_of_mem _ hc)
  · have hjoined : joined (pre ++ [⟨new, .allocated⟩]) (size - new) post =
        size - new + freeHead post := by
      unfold joined
      rw [freeTail_allocated, Nat.add_zero]
    rw [restTail_allocated, hjoined] at htrimmed
    exact htrimmed.of_akin hakin rfl rfl

theorem shrinkInPlace_trades (hP : Segment.Exact P)
    (hs : h.Sound P (pre ++ ⟨size, .allocated⟩ :: post)) (hpos : 0 < new)
    (hunit : new % blockUnit = 0) (hlt : new < size) :
    ∃ h' asked blocks', Trades P (shrinkInPlace (h.start + span pre) size new) h
        (pre ++ ⟨size, .allocated⟩ :: post) () h' asked blocks' [(h.start + span pre, size)]
        [(h.start + span pre, new)] ∧
      Trimmed h (pre ++ [⟨new, .allocated⟩]) (size - new + freeHead post) (restHead post) h' blocks'
        asked := by
  obtain ⟨h', asked, blocks', hl, htaken, htrimmed⟩ := shrinkInPlace_leads hP hs hpos hunit hlt
  exact ⟨h', asked, blocks', ⟨_, hl, taken_perm _ _ _ _, htaken⟩, htrimmed⟩

/-- A sound arena stays sound when an allocated block takes the free block after it in. -/
lemma Sound.absorbed {m : Memory}
    (hs : h.Sound P (pre ++ ⟨size, .allocated⟩ :: ⟨k, .free⟩ :: post))
    (hlaid : (h.withMemory m).Laid (pre ++ [⟨size + k, .allocated⟩] ++ post)) :
    ((h.withMemory m).withPlacement (h.placement.pull (h.start + span pre) (size + k))).Sound P
      (pre ++ ⟨size + k, .allocated⟩ :: post) := by
  have hmerged := merged_allocated.mp hs.merged
  have hcursor := hs.cursor
  refine ⟨?_, hs.valid, ?_, ?_, hs.floor_mod, hs.start_lt, hs.floor_le, hs.chunk_mod, hs.ends⟩
  · have hlaid' := hlaid.withPlacement (h.placement.pull (h.start + span pre) (size + k))
    simpa using hlaid'
  · exact merged_allocated.mpr ⟨hmerged.1, (List.isChain_cons.mp hmerged.2).2⟩
  · have hheads : h.placement.PointsInto
        (heads h.start (pre ++ [⟨size, .allocated⟩, ⟨k, .free⟩] ++ post)) := by
      simpa using hcursor
    have hpulled := hheads.pull (q := ⟨size + k, .allocated⟩) (by simp) ?_
    · simpa using hpulled
    · intro r hr
      exact (hs.chained.tiles.whole (List.mem_append_right _ (List.mem_append_left post hr))).1

theorem growInPlace_trades
    (hs : h.Sound P (pre ++ ⟨size, .allocated⟩ :: ⟨k, .free⟩ :: post)) (hpos : 0 < new)
    (hunit : new % blockUnit = 0) (hle : new ≤ size + k) :
    ∃ h', Trades P (growInPlace (h.start + span pre) (size + k) new) h
        (pre ++ ⟨size, .allocated⟩ :: ⟨k, .free⟩ :: post) () h' []
        (pre ++ carved new (size + k) ++ post) [(h.start + span pre, size)]
        [(h.start + span pre, new)] ∧
      h'.segment = h.segment ∧ h'.stop = h.stop ∧
      h'.placement = h.placement.pull (h.start + span pre) (size + k) := by
  have hl : h.Laid (pre ++ [⟨size, .allocated⟩, ⟨k, .free⟩] ++ post) := by simpa using hs.toLaid
  have hwhole := hs.toLaid.whole
  have hfree : Piece.Whole ⟨k, .free⟩ := hs.chained.tiles.whole (by simp)
  have hblock := hs.toLaid.block_le
  have hlimit := hs.toLaid.stop_lt_limit
  have hmerged := merged_allocated.mp hs.merged
  have htotal : Piece.Whole ⟨size + k, .allocated⟩ := by
    have h0 := hwhole.1
    have h1 := hwhole.2
    have h2 := hfree.2
    simp only [blockUnit] at h0 h1 h2
    exact ⟨by simp only; omega, by simp only [blockUnit]; omega⟩
  simp only [span_cons] at hblock
  obtain ⟨m₁, hmark, hlaid₁, hsame₁⟩ := hl.mark_runs ⟨size + k, .allocated⟩ htotal (by simp)
  simp only [span_cons, span_nil, Nat.add_zero] at hmark hsame₁
  have hpull := pullCursor_runs (h := h.withMemory m₁) (h.start + span pre) (size + k)
    (by omega)
  have hs₁ := hs.absorbed hlaid₁
  obtain ⟨m₂, hcarve, hsame₂⟩ := carve_leads new hs₁ hmerged.1 hmerged.2.resize hpos hunit
    hle
  refine ⟨_, ⟨taken h.start pre ++ taken (h.start + span pre + (size + k)) post,
    ⟨?_, hcarve.sound, ⟨rfl, rfl, rfl, rfl, Placement.pull_policy _ _ _⟩, ?_⟩, ?_, ?_⟩, rfl, rfl,
    rfl⟩
  · unfold growInPlace
    apply (Action.Runs.note _ _ h).andThen
    exact hmark.andThen (hpull.andThen hcarve.runs)
  · have hspan := span_restTail pre
    have hspares : h.Spares (h.withMemory m₁)
        (taken h.start pre ++ taken (h.start + span pre + (size + k)) post) :=
      spares_of_same fun a _ _ ha => hsame₁ a (by omega)
    exact hspares.trans hcarve.spares (List.Subset.refl _)
  · rw [taken_append, taken_allocated, taken_free, Nat.add_assoc]
    exact List.perm_middle
  · have hcarved := taken_carved (a := h.start + span pre) hunit htotal.2 hle
    rw [List.append_assoc, taken_append, taken_append, hcarved, span_carved]
    exact List.perm_middle

lemma move_runs_none {h₁ : Arena σ} {asked : List Event} {payload old : Nat}
    (ha : Action.Runs (allocate n) h none h₁ asked) :
    Action.Runs (move payload old n) h none h₁ asked := by
  unfold move
  exact ha.thenQuiet (Action.Runs.pure _ _)

lemma move_runs {h₁ h' : Arena σ} {asked asked' : List Event} {payload old t : Nat}
    (hold : 2 * wordSize ≤ old) (ha : Action.Runs (allocate n) h (some t) h₁ asked)
    (hfree : Action.Runs (free (some payload))
      (h₁.withMemory (h₁.memory.copy payload t (min (old - 2 * wordSize) n))) () h' asked') :
    Action.Runs (move payload old n) h (some t) h' (asked ++ asked') := by
  unfold move
  apply ha.bind
  apply (Action.Runs.lift (Word.sub_of_le hold) h₁).andThen
  apply (Action.Runs.modify rfl rfl).andThen
  exact hfree.thenQuiet (Action.Runs.pure _ _)

/-- How moving the payload of the block of `size` bytes at `a` ends. -/
inductive Moved (h : Arena σ) (a size n : Nat) (blocks : List Piece) (h' : Arena σ) :
    Option Nat → List Piece → List Event → Prop where
  | failed {blocks' : List Piece} {asked : List Event}
      (step : Allocated h n blocks h' none blocks' asked) :
      Moved h a size n blocks h' none blocks' asked
  | copied {t : Nat} {pre post blocks' : List Piece} {asked asked' : List Event} (h₁ : Arena σ)
      (step : Allocated h n blocks h₁ (some t) (pre ++ ⟨size, .allocated⟩ :: post) asked)
      (source : h.start + span pre = a)
      (release : Trimmed (h₁.withMemory
          (h₁.memory.copy (a + wordSize) t (min (size - 2 * wordSize) n)))
        (restTail pre) (joined pre size post) (restHead post) h' blocks' asked') :
      Moved h a size n blocks h' (some t) blocks' (asked ++ asked')

/-- What is copied into the payload that was handed out touches no other block. -/
lemma Leads.filled {h₁ : Arena σ} {t source count : Nat} {asked : List Event} {blocks₁ : List Piece}
    {kept : List (Nat × Nat)} (hl₁ : Leads P (allocate n) h (some t) h₁ asked blocks₁ kept)
    (htaken₁ : (taken h.start blocks₁).Perm (Block.handed (some t) n ++ kept)) (hcount : count ≤ n) :
    (h₁.withMemory (h₁.memory.copy source t count)).Sound P blocks₁ ∧
      h₁.Spares (h₁.withMemory (h₁.memory.copy source t count)) kept := by
  have hroom := Block.le_leastSize n
  rw [← hl₁.akin.start] at htaken₁
  obtain ⟨hword, htarget⟩ := hl₁.sound.le_handed htaken₁
  have hwrite := hl₁.sound.write htarget (m := h₁.memory.copy source t count) fun a ha => by
    rw [Memory.read_copy, if_neg]
    simp only [wordSize] at *
    omega
  exact ⟨hwrite.1, hwrite.2 kept (hl₁.sound.others htaken₁)⟩

/-- The block that is copied from is still there after the block to copy to was allocated. -/
lemma Leads.copied {h₁ : Arena σ} {t : Nat} {asked : List Event} {blocks₁ : List Piece}
    {kept : List (Nat × Nat)} (hl₁ : Leads P (allocate n) h (some t) h₁ asked blocks₁ kept)
    (hkept : (taken h.start (pre ++ ⟨size, .allocated⟩ :: post)).Perm kept)
    (htaken₁ : (taken h.start blocks₁).Perm (Block.handed (some t) n ++ kept)) :
    ∃ pre₁ post₁, blocks₁ = pre₁ ++ ⟨size, .allocated⟩ :: post₁ ∧
      h.start + span pre₁ = h.start + span pre ∧
      (h₁.withMemory (h₁.memory.copy (h.start + span pre + wordSize) t
        (min (size - 2 * wordSize) n))).Sound P blocks₁ ∧
      h₁.Spares (h₁.withMemory (h₁.memory.copy (h.start + span pre + wordSize) t
        (min (size - 2 * wordSize) n))) kept := by
  have hsource : (h.start + span pre, size) ∈ kept := by
    apply hkept.mem_iff.mp
    rw [taken_append, taken_allocated]
    simp
  have hthere := htaken₁.mem_iff.mpr (List.mem_append_right _ hsource)
  obtain ⟨pre₁, post₁, hblocks₁, hpre₁⟩ := mem_taken_iff.mp hthere
  exact ⟨pre₁, post₁, hblocks₁, hpre₁.symm, hl₁.filled htaken₁ (Nat.min_le_right _ n)⟩

theorem move_trades (hP : Segment.Exact P) (hs : h.Sound P (pre ++ ⟨size, .allocated⟩ :: post))
    (n : Nat) :
    ∃ r h' asked blocks', Trades P (move (h.start + span pre + wordSize) size n) h
        (pre ++ ⟨size, .allocated⟩ :: post) r h' asked blocks'
        (Block.ceded r (h.start + span pre, size)) (Block.handed r n) ∧
      Moved h (h.start + span pre) size n (pre ++ ⟨size, .allocated⟩ :: post) h' r blocks'
        asked := by
  have hle := hs.toLaid.whole.le
  simp only [minBlockSize] at hle
  obtain ⟨r, h₁, asked, blocks₁, ⟨kept, hl₁, hkept, htaken₁⟩, ha⟩ := allocate_trades hP hs n
  cases r with
  | none =>
    exact ⟨none, h₁, asked, blocks₁, ⟨kept, ⟨move_runs_none hl₁.runs, hl₁.sound, hl₁.akin,
      hl₁.spares⟩, hkept, htaken₁⟩, .failed ha⟩
  | some t =>
    obtain ⟨pre₁, post₁, rfl, hpre₁, hs₂, hspares⟩ := hl₁.copied hkept htaken₁
    obtain ⟨h', asked', blocks', ⟨rest, hl', hlost, hgained⟩, htrimmed⟩ := free_trades hP hs₂
    simp only [withMemory_start, hl₁.akin.start, hpre₁] at hl' hlost hgained
    have hall := hkept.symm.trans (taken_perm h.start size pre post)
    have hrest : rest.Perm ((t - wordSize, Block.leastSize n) ::
        (taken h.start pre ++ taken (h.start + span pre + size) post)) := by
      have hboth := hlost.symm.trans (htaken₁.trans (hall.cons _))
      exact (hboth.trans (List.Perm.swap _ _ _)).cons_inv
    have hakin : h₁.Akin (h₁.withMemory (h₁.memory.copy (h.start + span pre + wordSize) t
      (min (size - 2 * wordSize) n))) := ⟨rfl, rfl, rfl, rfl, rfl⟩
    refine ⟨some t, h', asked ++ asked', blocks', ⟨taken h.start pre ++
      taken (h.start + span pre + size) post, ⟨?_, hl'.sound,
        hl₁.akin.trans (hakin.trans hl'.akin), ?_⟩, taken_perm _ _ _ _, hgained.trans hrest⟩,
      .copied h₁ ha hpre₁ htrimmed⟩
    · exact move_runs (by simp only [wordSize]; omega) hl₁.runs hl'.runs
    · have hsub : taken h.start pre ++ taken (h.start + span pre + size) post ⊆ kept :=
        fun c hc => hall.mem_iff.mpr (List.mem_cons_of_mem _ hc)
      have hsub' : taken h.start pre ++ taken (h.start + span pre + size) post ⊆ rest :=
        fun c hc => hrest.mem_iff.mpr (List.mem_cons_of_mem _ hc)
      exact ((hl₁.spares.mono hsub).trans (hspares.mono hsub) (List.Subset.refl _)).trans
        hl'.spares hsub'

theorem free_null_trades (hs : h.Sound P blocks) :
    Trades P (free none) h blocks () h [] blocks [] [] := by
  unfold free
  exact hs.stay ((Action.Runs.note _ _ h).andThen (Action.Runs.pure _ _))

theorem resize_null_trades (hP : Segment.Exact P) (hs : h.Sound P blocks) (n : Nat) :
    ∃ r h' asked blocks',
      Trades P (resize none n) h blocks r h' asked blocks' [] (Block.handed r n) ∧
        Allocated h n blocks h' r blocks' asked := by
  obtain ⟨r, h', asked, blocks', ht, ha⟩ := allocate_trades hP hs n
  refine ⟨r, h', asked, blocks', ?_, ha⟩
  unfold resize
  exact trades_after (Action.Runs.note _ _ h) ht

theorem resize_zero_trades (hP : Segment.Exact P)
    (hs : h.Sound P (pre ++ ⟨size, .allocated⟩ :: post)) :
    ∃ h' asked blocks', Trades P (resize (some (h.start + span pre + wordSize)) 0) h
        (pre ++ ⟨size, .allocated⟩ :: post) none h' asked blocks' [(h.start + span pre, size)] [] ∧
      Trimmed h (restTail pre) (joined pre size post) (restHead post) h' blocks' asked := by
  obtain ⟨h', asked, blocks', ht, htrimmed⟩ := free_trades hP hs
  refine ⟨h', asked, blocks', ?_, htrimmed⟩
  unfold resize
  apply trades_after (Action.Runs.note _ _ h)
  exact ht.andPure (Action.Runs.pure none h')

/-- How resizing the payload of the block of `size` bytes between `pre` and `post` to `n` bytes
ends. -/
inductive Resized (h : Arena σ) (pre : List Piece) (size : Nat) (post : List Piece) (n : Nat)
    (h' : Arena σ) : Option Nat → List Piece → List Event → Prop where
  | unsized (large : Block.sizeFor n = none) (arena : h' = h) :
      Resized h pre size post n h' none (pre ++ ⟨size, .allocated⟩ :: post) []
  | same (sized : Block.sizeFor n = some size) (arena : h' = h) :
      Resized h pre size post n h' (some (h.start + span pre + wordSize))
        (pre ++ ⟨size, .allocated⟩ :: post) []
  | cut {new : Nat} {blocks' : List Piece} {asked : List Event}
      (sized : Block.sizeFor n = some new) (less : new < size)
      (step : Trimmed h (pre ++ [⟨new, .allocated⟩]) (size - new + freeHead post) (restHead post) h'
        blocks' asked) :
      Resized h pre size post n h' (some (h.start + span pre + wordSize)) blocks' asked
  | absorbed {new : Nat} (sized : Block.sizeFor n = some new) (more : size < new)
      (fits : new ≤ size + freeHead post) (segment : h'.segment = h.segment)
      (stop : h'.stop = h.stop) :
      Resized h pre size post n h' (some (h.start + span pre + wordSize))
        (pre ++ carved new (size + freeHead post) ++ restHead post) []
  | moved {new : Nat} {r : Option Nat} {blocks' : List Piece} {asked : List Event}
      (sized : Block.sizeFor n = some new) (tight : size + freeHead post < new)
      (step : Moved h (h.start + span pre) size n (pre ++ ⟨size, .allocated⟩ :: post) h' r blocks'
        asked) :
      Resized h pre size post n h' r blocks' asked

/-- The tag after a block has the size of the free block there, if one is there, and never more than
there is room. -/
lemma headBits_size_cases (hwhole : ∀ p ∈ post, p.Whole) :
    Tag.size ⟨headBits post⟩ ≤ span post ∧
      (0 < freeHead post → Tag.size ⟨headBits post⟩ = freeHead post) := by
  refine ⟨?_, fun hpos => headBits_size hwhole hpos⟩
  rcases post with _ | ⟨p, rest⟩
  · exact Nat.zero_le _
  · have hp := hwhole p List.mem_cons_self
    have hsize := hp.tag_size
    simp only [headBits, List.head?_cons, Option.map_some, Option.getD_some, span_cons]
    omega

/-- A block and the one after it take less than a word counts. -/
lemma Laid.headBits_add {status : Status} (hl : h.Laid (pre ++ ⟨size, status⟩ :: post)) :
    Word.add size (Tag.size ⟨headBits post⟩) = .ok (size + Tag.size ⟨headBits post⟩) := by
  have hafter := (headBits_size_cases fun p hp =>
    hl.chained.tiles.whole (List.mem_append_right _ (List.mem_cons_of_mem _ hp))).1
  have hblock := hl.block_le
  have hlimit := hl.stop_lt_limit
  simp only at hblock
  exact Word.add_of_lt (by omega)

section Exits

variable {new : Nat} {status : Status} {r : Option Nat} {h' : Arena σ} {asked : List Event}

/-! The exits of resizing the payload of a block of any status. -/

lemma Laid.resize_unsized (hl : h.Laid (pre ++ ⟨size, status⟩ :: post)) (hn : 0 < n)
    (hsized : Block.sizeFor n = none) :
    Action.Runs (resize (some (h.start + span pre + wordSize)) n) h none h [] := by
  unfold resize
  simp only [Block.ofPayload_eq hl.payload_lt, if_neg (show n ≠ 0 by omega), hsized]
  apply (Action.Runs.note _ _ h).andThen
  exact hl.size_runs.andThen (Action.Runs.pure _ _)

lemma Laid.resize_same (hl : h.Laid (pre ++ ⟨size, status⟩ :: post)) (hn : 0 < n)
    (hsized : Block.sizeFor n = some size) :
    Action.Runs (resize (some (h.start + span pre + wordSize)) n) h
      (some (h.start + span pre + wordSize)) h [] := by
  unfold resize
  simp only [Block.ofPayload_eq hl.payload_lt, if_neg (show n ≠ 0 by omega), hsized]
  apply (Action.Runs.note _ _ h).andThen
  apply hl.size_runs.andThen
  simp only [if_true]
  exact Action.Runs.pure _ _

lemma Laid.resize_cut (hl : h.Laid (pre ++ ⟨size, status⟩ :: post)) (hn : 0 < n)
    (hsized : Block.sizeFor n = some new) (hlt : new < size)
    (hcut : Action.Runs (shrinkInPlace (h.start + span pre) size new) h () h' asked) :
    Action.Runs (resize (some (h.start + span pre + wordSize)) n) h
      (some (h.start + span pre + wordSize)) h' asked := by
  unfold resize
  simp only [Block.ofPayload_eq hl.payload_lt, if_neg (show n ≠ 0 by omega), hsized]
  apply (Action.Runs.note _ _ h).andThen
  apply hl.size_runs.andThen
  simp only [if_neg (show new ≠ size by omega), if_pos hlt]
  exact hcut.thenQuiet (Action.Runs.pure _ _)

/-- A block that is to grow first asks the one after it. -/
lemma Laid.resize_asks (hl : h.Laid (pre ++ ⟨size, status⟩ :: post)) (hn : 0 < n)
    (hsized : Block.sizeFor n = some new) (hlt : size < new)
    (hrun : Action.Runs (if 0 < freeHead post ∧ new ≤ size + freeHead post then do
          growInPlace (h.start + span pre) (size + freeHead post) new
          return some (h.start + span pre + wordSize)
        else move (h.start + span pre + wordSize) size n) h r h' asked) :
    Action.Runs (resize (some (h.start + span pre + wordSize)) n) h r h' asked := by
  have hwhole : ∀ p ∈ post, p.Whole := fun p hp =>
    hl.chained.tiles.whole (List.mem_append_right _ (List.mem_cons_of_mem _ hp))
  have hat := span_step h.start pre ⟨size, status⟩
  have hseam : h.Laid ((pre ++ [⟨size, status⟩]) ++ post) := by simpa using hl
  have hload := hseam.load_runs
  have hnext := hl.next_runs
  have hfree := headBits_isFree hwhole
  have hfreeSize := (headBits_size_cases hwhole).2
  simp only at hat hnext
  rw [hat] at hload
  unfold resize
  simp only [Block.ofPayload_eq hl.payload_lt, if_neg (show n ≠ 0 by omega), hsized]
  apply (Action.Runs.note _ _ h).andThen
  apply hl.size_runs.andThen
  simp only [if_neg (show new ≠ size by omega), if_neg (show ¬new < size by omega)]
  apply hnext.andThen
  apply hload.andThen
  apply (Action.Runs.lift hl.headBits_add h).andThen
  apply (Action.Runs.lift hfree h).andThen
  simp only [Bool.and_eq_true, decide_eq_true_eq]
  by_cases hpos : 0 < freeHead post
  · rwa [hfreeSize hpos]
  · simp only [hpos, false_and, if_false] at hrun ⊢
    exact hrun

end Exits

/-- A payload that is resized trades its block for another one, or keeps it. -/
theorem resize_trades (hP : Segment.Exact P) (hs : h.Sound P (pre ++ ⟨size, .allocated⟩ :: post))
    (hn : 0 < n) :
    ∃ r h' asked blocks', Trades P (resize (some (h.start + span pre + wordSize)) n) h
        (pre ++ ⟨size, .allocated⟩ :: post) r h' asked blocks'
        (Block.ceded r (h.start + span pre, size)) (Block.handed r n) ∧
      Resized h pre size post n h' r blocks' asked := by
  cases hsized : Block.sizeFor n with
  | none => exact ⟨none, h, [], _, hs.stay (hs.toLaid.resize_unsized hn hsized), .unsized hsized rfl⟩
  | some new =>
    obtain ⟨hunit, hroom, _, _⟩ := Block.sizeFor_spec hsized
    have hleast := Block.sizeFor_eq hsized
    simp only [wordSize] at hroom
    -- in place, the payload's block keeps its address
    have hhanded : Block.handed (some (h.start + span pre + wordSize)) n =
        [(h.start + span pre, new)] := by
      simp only [Block.handed, hleast, Option.toList_some, List.map_cons, List.map_nil,
        Nat.add_sub_cancel]
    rcases Nat.lt_trichotomy new size with hlt | rfl | hgt
    · obtain ⟨h', asked, blocks', ht, htrimmed⟩ := shrinkInPlace_trades hP hs (by omega) hunit hlt
      refine ⟨some (h.start + span pre + wordSize), h', asked, blocks', ?_, .cut hsized hlt htrimmed⟩
      rw [hhanded]
      exact ht.of_runs (hs.toLaid.resize_cut hn hsized hlt)
    · have hsame := taken_perm h.start new pre post
      refine ⟨some (h.start + span pre + wordSize), h, [], _,
        ⟨taken h.start pre ++ taken (h.start + span pre + new) post,
        ⟨hs.toLaid.resize_same hn hsized, hs, Akin.refl h, Spares.refl h _⟩, hsame,
        by rwa [hhanded]⟩, .same hsized rfl⟩
    · by_cases hfits : 0 < freeHead post ∧ new ≤ size + freeHead post
      · obtain ⟨k, rest, rfl⟩ : ∃ k rest, post = ⟨k, .free⟩ :: rest := by
          rcases head_cases post with ⟨hnone, _⟩ | hpost
          · omega
          · exact ⟨_, _, hpost⟩
        obtain ⟨h', ht, hsegment, hstop, _⟩ := growInPlace_trades hs (by omega) hunit hfits.2
        refine ⟨some (h.start + span pre + wordSize), h', [],
          pre ++ carved new (size + k) ++ rest, ?_, .absorbed hsized hgt hfits.2 hsegment hstop⟩
        rw [hhanded]
        refine ht.of_runs fun hruns => hs.toLaid.resize_asks hn hsized hgt ?_
        rw [if_pos hfits]
        exact hruns.thenQuiet (Action.Runs.pure _ _)
      · obtain ⟨r, h', asked, blocks', ht, hmoved⟩ := move_trades hP hs n
        refine ⟨r, h', asked, blocks', ?_, .moved hsized (by omega) hmoved⟩
        refine ht.of_runs fun hruns => hs.toLaid.resize_asks hn hsized hgt ?_
        rwa [if_neg hfits]

end Arena
end BlockHeap
