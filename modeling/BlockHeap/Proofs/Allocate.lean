import BlockHeap.Proofs.Growth

/-!
# Allocating

A request ends in one of few ways, and `Obtained` and `Allocated` list them with the chain that each
leaves. In all of them the arena stays sound, and every block that was allocated before keeps its
place, its size and its bytes.
-/

namespace BlockHeap

/-- The least block size that holds `size` bytes of payload. -/
def Block.leastSize (size : Nat) : Nat :=
  Word.floorUnit (size + 2 * wordSize + (blockUnit - 1))

lemma Block.leastSize_spec (size : Nat) :
    leastSize size % blockUnit = 0 ∧ size + 2 * wordSize ≤ leastSize size ∧
      leastSize size < size + 2 * wordSize + blockUnit := by
  unfold leastSize Word.floorUnit
  simp only [blockUnit, wordSize]
  omega

lemma Block.le_leastSize (size : Nat) : size + 2 * wordSize ≤ leastSize size :=
  (leastSize_spec size).2.1

lemma Block.sizeFor_eq {size blockSize : Nat} (h : Block.sizeFor size = some blockSize) :
    Block.leastSize size = blockSize := by
  unfold Block.sizeFor at h
  dsimp only at h
  split at h
  next => exact Option.some.inj h
  next => exact absurd h (by simp)

lemma Block.sizeFor_leastSize {size : Nat} (h : Block.leastSize size < Word.limit) :
    Block.sizeFor size = some (Block.leastSize size) :=
  if_pos h

lemma Block.sizeFor_spec {size blockSize : Nat} (h : Block.sizeFor size = some blockSize) :
    blockSize % blockUnit = 0 ∧ size + 2 * wordSize ≤ blockSize ∧
      blockSize < size + 2 * wordSize + blockUnit ∧ blockSize < Word.limit := by
  obtain ⟨hmod, hlow, hhigh⟩ := Block.leastSize_spec size
  rw [Block.sizeFor_eq h] at hmod hlow hhigh
  refine ⟨hmod, hlow, hhigh, ?_⟩
  unfold Block.sizeFor at h
  dsimp only at h
  split at h
  next hlt => rwa [← Option.some.inj h]
  next => exact absurd h (by simp)

/-- The block that was handed out for a request of `size` bytes, if one was. -/
def Block.handed (payload : Option Nat) (size : Nat) : List (Nat × Nat) :=
  payload.toList.map fun p => (p - wordSize, Block.leastSize size)

lemma Block.payload_eq {block : Nat} (h : block + wordSize < Word.limit) :
    Block.payload block = block + wordSize :=
  Word.forward_of_lt h

lemma Block.ofPayload_eq {block : Nat} (h : block + wordSize < Word.limit) :
    Block.ofPayload (block + wordSize) = block := by
  unfold Block.ofPayload
  rw [Word.backward_of_le (Nat.le_add_left _ _) h, Nat.add_sub_cancel]

variable {σ : Type} [Segment σ]

namespace Arena

variable {P : σ → Prop} {h : Arena σ} {pre post blocks : List Piece} {size n : Nat}

lemma Laid.payload {p : Piece} {m : Memory} (hl : h.Laid (pre ++ p :: post))
    (hm : Memory.SameOutside (h.start + span pre + wordSize)
      (h.start + span pre + p.size - wordSize) h.memory m) :
    (h.withMemory m).Laid (pre ++ p :: post) := by
  have hl' : h.Laid (pre ++ [p] ++ post) := by simpa using hl
  have hle := hl.whole.le
  obtain ⟨hwhole, hhead, hfoot, _⟩ := (tiles_append.mp hl.chained.tiles).2
  simp only [minBlockSize, wordSize] at *
  have hlaid := hl'.replace [p] rfl ⟨hwhole, ?_, ?_, trivial⟩
    (hm.mono (by omega) (by simp only [span_cons, span_nil]; omega))
  · simpa using hlaid
  · rw [← hhead]
    exact Memory.word_congr fun a _ ha => hm a (by simp only [wordSize] at ha; omega)
  · rw [← hfoot]
    exact Memory.word_congr fun a ha _ => hm a (by simp only [wordSize] at ha; omega)

lemma Sound.withMemory {m : Memory} (hs : h.Sound P blocks) (hl : (h.withMemory m).Laid blocks) :
    (h.withMemory m).Sound P blocks :=
  ⟨hl, hs.valid, hs.merged, hs.cursor, hs.floor_mod, hs.start_lt, hs.floor_le, hs.chunk_mod, hs.ends⟩

theorem carve_leads (size : Nat) {status : Status} (hs : h.Sound P (pre ++ ⟨n, status⟩ :: post))
    (hpre : Merged pre) (hpost : Merged (⟨n, .free⟩ :: post)) (hpos : 0 < size)
    (hsize : size % blockUnit = 0) (hle : size ≤ n) :
    ∃ m, Leads P (carve (h.start + span pre) size) h () (h.withMemory m) []
        (pre ++ carved size n ++ post)
        (taken h.start pre ++ taken (h.start + span pre + n) post) ∧
      Memory.SameOutside (h.start + span pre) (h.start + span pre + n) h.memory m := by
  obtain ⟨m, hruns, hlaid, hsame⟩ := carve_runs hs.toLaid hpos hsize hle
  dsimp only at hsame
  refine ⟨m, ⟨hruns, ⟨hlaid, hs.valid, ?_, ?_, hs.floor_mod, hs.start_lt, hs.floor_le,
    hs.chunk_mod, hs.ends⟩, ⟨rfl, rfl, rfl, rfl, rfl⟩, ?_⟩, hsame⟩
  · have hrest : Merged post := (List.isChain_cons.mp hpost).2
    unfold carved
    split
    next =>
      rw [List.append_assoc]
      exact merged_allocated.mpr ⟨hpre, hpost.resize⟩
    next =>
      rw [List.append_assoc]
      exact merged_allocated.mpr ⟨hpre, hrest⟩
  · intro c hc
    have hmem := hs.cursor c hc
    simp only [heads_append, heads_cons, span_append, span_carved, List.mem_append,
      List.mem_cons, withMemory_start, Nat.add_assoc] at hmem ⊢
    rcases hmem with hmem | rfl | hmem
    · exact Or.inl (Or.inl hmem)
    · left
      right
      unfold carved
      split <;> simp
    · exact Or.inr hmem
  · have hspan := span_restTail pre
    exact spares_of_same fun a _ _ ha => hsame a (by omega)

/-- How a free block of at least `size` bytes is found or made. -/
inductive Obtained (h : Arena σ) (size : Nat) (blocks : List Piece) (h' : Arena σ) :
    Option Nat → List Piece → List Event → Prop where
  | found {b : Nat} (hit : h.search size blocks = some b)
      (arena : h' = h.withPlacement (h.searched size blocks)) :
      Obtained h size blocks h' (some b) blocks []
  | enlarged {r : Option Nat} {blocks' : List Piece} (miss : h.search size blocks = none)
      (step : Enlarged (h.withPlacement (h.searched size blocks)) size blocks h' r blocks') :
      Obtained h size blocks h' r blocks' [.grow (max h.chunkSize size)]

lemma Enlarged.some {h' : Arena σ} {blocks' : List Piece} {b : Nat}
    (he : Enlarged h size blocks h' (some b) blocks') :
    ∃ pre k post, blocks' = pre ++ ⟨k, .free⟩ :: post ∧ b = h.start + span pre ∧ size ≤ k := by
  cases he with
  | granted => exact ⟨_, _, [], rfl, rfl, by omega⟩

lemma Enlarged.taken_eq {h' : Arena σ} {blocks' : List Piece} {r : Option Nat}
    (he : Enlarged h size blocks h' r blocks') (a : Nat) : taken a blocks' = taken a blocks := by
  cases he with
  | refused => rfl
  | granted =>
    rw [taken_append, taken_restTail, taken_free, taken_nil, List.append_nil]

lemma Obtained.some {h' : Arena σ} {blocks' : List Piece} {b : Nat} {asked : List Event}
    (ho : Obtained h size blocks h' (some b) blocks' asked) :
    ∃ pre k post, blocks' = pre ++ ⟨k, .free⟩ :: post ∧ b = h.start + span pre ∧ size ≤ k := by
  cases ho with
  | found hit => exact search_some hit
  | enlarged miss step => exact step.some

lemma Obtained.taken_eq {h' : Arena σ} {blocks' : List Piece} {r : Option Nat}
    {asked : List Event} (ho : Obtained h size blocks h' r blocks' asked) (a : Nat) :
    taken a blocks' = taken a blocks := by
  cases ho with
  | found => rfl
  | enlarged miss step => exact step.taken_eq a

lemma Sound.searched (hs : h.Sound P blocks) (size : Nat) :
    (h.withPlacement (h.searched size blocks)).Sound P blocks :=
  hs.withPlacement (searched_pointsInto hs.ne_nil hs.cursor)

theorem obtain_leads (size : Nat) (hP : Segment.Exact P) (hs : h.Sound P blocks) (hpos : 0 < size)
    (hsize : size % blockUnit = 0) :
    ∃ r h' asked blocks', Leads P (obtain size) h r h' asked blocks' (taken h.start blocks) ∧
      Obtained h size blocks h' r blocks' asked := by
  have hfind := find_runs size hs.toLaid fun c hc => Or.inl (hs.cursor c hc)
  have hs₁ := hs.searched size
  have hakin : h.Akin (h.withPlacement (h.searched size blocks)) :=
    ⟨rfl, rfl, rfl, rfl, searched_policy⟩
  unfold obtain
  cases hfound : h.search size blocks with
  | some b =>
    rw [hfound] at hfind
    exact ⟨some b, _, [], blocks, ⟨hfind.andThen (Action.Runs.pure _ _), hs₁, hakin,
      fun _ _ _ _ _ => rfl⟩, .found hfound rfl⟩
  | none =>
    rw [hfound] at hfind
    obtain ⟨r, h', blocks', hl, he⟩ := enlarge_runs hP hs₁ hpos hsize
    exact ⟨r, h', _, blocks', ⟨hfind.andThen hl.runs, hl.sound, hakin.trans hl.akin, hl.spares⟩,
      .enlarged hfound he⟩

/-- How a request for `n` bytes ends. -/
inductive Allocated (h : Arena σ) (n : Nat) (blocks : List Piece) (h' : Arena σ) :
    Option Nat → List Piece → List Event → Prop where
  | empty (zero : n = 0) (arena : h' = h) : Allocated h n blocks h' none blocks []
  | unsized (large : Block.sizeFor n = none) (arena : h' = h) :
      Allocated h n blocks h' none blocks []
  | missed {size : Nat} {blocks' : List Piece} {asked : List Event}
      (sized : Block.sizeFor n = some size)
      (step : Obtained h size blocks h' none blocks' asked) :
      Allocated h n blocks h' none blocks' asked
  | placed {size k : Nat} {pre post : List Piece} {asked : List Event} (h₁ : Arena σ) (m : Memory)
      (sized : Block.sizeFor n = some size)
      (step : Obtained h size blocks h₁ (some (h.start + span pre)) (pre ++ ⟨k, .free⟩ :: post) asked)
      (room : size ≤ k) (arena : h' = h₁.withMemory m)
      (near : Memory.SameOutside (h.start + span pre) (h.start + span pre + k) h₁.memory m) :
      Allocated h n blocks h' (some (h.start + span pre + wordSize)) (pre ++ carved size k ++ post)
        asked

lemma Sound.carve_leads {k : Nat} (hs : h.Sound P (pre ++ ⟨k, .free⟩ :: post)) (hpos : 0 < size)
    (hsize : size % blockUnit = 0) (hle : size ≤ k) :
    ∃ m, Leads P (carve (h.start + span pre) size) h () (h.withMemory m) []
        (pre ++ carved size k ++ post) (taken h.start (pre ++ ⟨k, .free⟩ :: post)) ∧
      Memory.SameOutside (h.start + span pre) (h.start + span pre + k) h.memory m := by
  have hmerged := hs.merged
  unfold Merged at hmerged
  rw [List.isChain_append] at hmerged
  have hcarve := Arena.carve_leads size hs hmerged.1 hmerged.2.1 hpos hsize hle
  rwa [taken_append, taken_free]

/-- A free block of at least the size that `n` bytes take is carved, and its payload handed out. -/
lemma Sound.handOut_leads {k : Nat} (hs : h.Sound P (pre ++ ⟨k, .free⟩ :: post))
    (hsized : Block.sizeFor n = some size) (hle : size ≤ k) :
    ∃ m, Leads P (do
          carve (h.start + span pre) size
          Action.diag .verbose
            (return .handedOut (h.start + span pre) (← Block.size (h.start + span pre)))
          return some (Block.payload (h.start + span pre)))
        h (some (h.start + span pre + wordSize)) (h.withMemory m) []
        (pre ++ carved size k ++ post) (taken h.start (pre ++ ⟨k, .free⟩ :: post)) ∧
      Memory.SameOutside (h.start + span pre) (h.start + span pre + k) h.memory m := by
  obtain ⟨hunit, hroom, _, _⟩ := Block.sizeFor_spec hsized
  simp only [wordSize] at hroom
  obtain ⟨m, hcarve, hsame⟩ := hs.carve_leads (by omega) hunit hle
  have hblock := hs.toLaid.block_le
  have hlt := hs.toLaid.stop_lt_limit
  have hpayload : Block.payload (h.start + span pre) = h.start + span pre + wordSize :=
    Block.payload_eq (by omega)
  refine ⟨m, ⟨?_, hcarve.sound, hcarve.akin, hcarve.spares⟩, hsame⟩
  apply hcarve.runs.andThen
  obtain ⟨p, rest, hcarved⟩ := exists_carved_eq size k
  have hlaid := hcarve.sound.toLaid
  rw [hcarved, List.append_assoc, List.cons_append] at hlaid
  apply (Action.Runs.diag _ (hlaid.size_runs.andThen (Action.Runs.pure _ _))).andThen
  rw [hpayload]
  exact Action.Runs.pure _ _

theorem allocate_leads (hP : Segment.Exact P) (hs : h.Sound P blocks) (n : Nat) :
    ∃ r h' asked blocks', Leads P (allocate n) h r h' asked blocks' (taken h.start blocks) ∧
      Allocated h n blocks h' r blocks' asked := by
  have hstay : Leads P (pure none : Action σ (Option Nat)) h none h [] blocks
      (taken h.start blocks) := ⟨Action.Runs.pure _ _, hs, Akin.refl h, Spares.refl h _⟩
  have hnote := Action.Runs.note .info (.allocate n) h
  unfold allocate
  by_cases hzero : n = 0
  · refine ⟨none, h, [], blocks, ⟨?_, hs, hstay.akin, hstay.spares⟩, .empty hzero rfl⟩
    apply hnote.andThen
    rw [if_pos hzero]
    exact hstay.runs
  · simp only [if_neg hzero]
    cases hsized : Block.sizeFor n with
    | none =>
      exact ⟨none, h, [], blocks, ⟨hnote.andThen hstay.runs, hs, hstay.akin, hstay.spares⟩,
        .unsized hsized rfl⟩
    | some size =>
      obtain ⟨hunit, hroom, _, _⟩ := Block.sizeFor_spec hsized
      simp only [wordSize] at hroom
      obtain ⟨r, h₁, asked, blocks₁, hl₁, ho⟩ := obtain_leads size hP hs (by omega) hunit
      cases r with
      | none =>
        refine ⟨none, h₁, asked, blocks₁, ⟨?_, hl₁.sound, hl₁.akin, hl₁.spares⟩, .missed hsized ho⟩
        exact hnote.andThen (hl₁.runs.thenQuiet (Action.Runs.pure _ _))
      | some b =>
        obtain ⟨pre, k, post, rfl, rfl, hle⟩ := ho.some
        obtain ⟨m, hcarve, hsame⟩ := hl₁.sound.handOut_leads hsized hle
        rw [hl₁.akin.start, ho.taken_eq h.start] at hcarve
        rw [hl₁.akin.start] at hsame
        exact ⟨some (h.start + span pre + wordSize), h₁.withMemory m, asked,
          pre ++ carved size k ++ post, ⟨hnote.andThen (hl₁.runs.thenQuiet hcarve.runs),
            hcarve.sound, hl₁.akin.trans hcarve.akin,
            hl₁.spares.trans hcarve.spares (List.Subset.refl _)⟩,
          .placed h₁ m hsized ho hle rfl hsame⟩

lemma Allocated.taken_perm {h' : Arena σ} {blocks' : List Piece} {r : Option Nat}
    {asked : List Event} (ha : Allocated h n blocks h' r blocks' asked)
    (htiles : ∃ m, Tiles m h.start blocks') :
    (taken h.start blocks').Perm (Block.handed r n ++ taken h.start blocks) := by
  cases ha with
  | empty => exact List.Perm.refl _
  | unsized => exact List.Perm.refl _
  | missed sized step =>
    rw [step.taken_eq h.start]
    exact List.Perm.refl _
  | @placed size k pre post _ h₁ m sized step room arena near =>
    obtain ⟨m', htiles⟩ := htiles
    have hunit : k % blockUnit = 0 := by
      have hmid := (tiles_append.mp (tiles_append.mp htiles).1).2.span_mod
      rwa [span_carved] at hmid
    have hsize := (Block.sizeFor_spec sized).1
    rw [← step.taken_eq h.start]
    simp only [taken_append, taken_free, span_carved, taken_carved hsize hunit room, Block.handed,
      Block.sizeFor_eq sized, Option.toList_some, List.map_cons, List.map_nil, Nat.add_assoc,
      List.singleton_append, List.append_assoc]
    exact List.perm_middle

theorem allocate_trades (hP : Segment.Exact P) (hs : h.Sound P blocks) (n : Nat) :
    ∃ r h' asked blocks',
      Trades P (allocate n) h blocks r h' asked blocks' [] (Block.handed r n) ∧
        Allocated h n blocks h' r blocks' asked := by
  obtain ⟨r, h', asked, blocks', hl, ha⟩ := allocate_leads hP hs n
  have htiles := hl.sound.chained.tiles
  rw [hl.akin.start] at htiles
  exact ⟨r, h', asked, blocks', ⟨_, hl, List.Perm.refl _, ha.taken_perm ⟨_, htiles⟩⟩, ha⟩

/-- What is written between the tags of an allocated block is seen by no other. -/
lemma Sound.write {b k : Nat} {m : Memory} (hs : h.Sound P blocks)
    (hb : (b, k) ∈ taken h.start blocks)
    (hm : Memory.SameOutside (b + wordSize) (b + k - wordSize) h.memory m) :
    (h.withMemory m).Sound P blocks ∧
      ∀ rest, (∀ c ∈ rest, c ∈ taken h.start blocks ∧ c ≠ (b, k)) →
        h.Spares (h.withMemory m) rest := by
  obtain ⟨pre, post, rfl, rfl⟩ := mem_taken_iff.mp hb
  refine ⟨hs.withMemory (hs.toLaid.payload hm), fun rest hrest c hc a ha ha' => hm a ?_⟩
  have hdisjoint := taken_disjoint (hrest c hc).1 hb (hrest c hc).2
  simp only [wordSize]
  omega

lemma Sound.others {b : Nat × Nat} {rest : List (Nat × Nat)} (hs : h.Sound P blocks)
    (hperm : (taken h.start blocks).Perm (b :: rest)) :
    ∀ c ∈ rest, c ∈ taken h.start blocks ∧ c ≠ b := by
  have hnodup := (taken_nodup hs.chained.tiles).of_map
  rw [hperm.nodup_iff, List.nodup_cons] at hnodup
  intro c hc
  refine ⟨hperm.mem_iff.mpr (List.mem_cons_of_mem _ hc), ?_⟩
  rintro rfl
  exact hnodup.1 hc

lemma Sound.le_handed {p : Nat} {rest : List (Nat × Nat)} (hs : h.Sound P blocks)
    (htaken : (taken h.start blocks).Perm (Block.handed (some p) n ++ rest)) :
    wordSize ≤ p ∧ (p - wordSize, Block.leastSize n) ∈ taken h.start blocks := by
  have hin : (p - wordSize, Block.leastSize n) ∈ taken h.start blocks :=
    htaken.mem_iff.mpr List.mem_cons_self
  have hle := (le_of_mem_taken hin).1
  have hstart := hs.toSited.le_start
  simp only [blockUnit, wordSize] at *
  exact ⟨by omega, hin⟩

/-- The block that is handed out lies apart from those that were allocated before. -/
lemma Sound.handed_apart {p : Nat} {rest : List (Nat × Nat)} (hs : h.Sound P blocks)
    (htaken : (taken h.start blocks).Perm (Block.handed (some p) n ++ rest)) {x : Nat × Nat}
    (hx : x ∈ rest) : p - wordSize + Block.leastSize n ≤ x.1 ∨ x.1 + x.2 ≤ p - wordSize := by
  obtain ⟨hthere, hne⟩ := hs.others htaken x hx
  exact taken_disjoint (hs.le_handed htaken).2 hthere hne.symm

/-- The arena with `n` bytes of an answered payload set to 0. -/
def clear (h : Arena σ) (answer : Option Nat) (n : Nat) : Arena σ :=
  match answer with
  | none => h
  | some p => h.withMemory (h.memory.fill p (p + n) 0)

omit [Segment σ] in
lemma clear_akin (h : Arena σ) (answer : Option Nat) (n : Nat) : h.Akin (h.clear answer n) := by
  cases answer with
  | none => exact Akin.refl h
  | some p => exact ⟨rfl, rfl, rfl, rfl, rfl⟩

/-- Clearing a payload that was handed out keeps to its block. -/
lemma Sound.clear {answer : Option Nat} {rest : List (Nat × Nat)} (hs : h.Sound P blocks)
    (htaken : (taken h.start blocks).Perm (Block.handed answer n ++ rest)) :
    (h.clear answer n).Sound P blocks ∧ h.Spares (h.clear answer n) rest := by
  cases answer with
  | none => exact ⟨hs, Spares.refl h _⟩
  | some p =>
    have hleast := Block.le_leastSize n
    obtain ⟨hp, hblock⟩ := hs.le_handed htaken
    obtain ⟨hsound, hspares⟩ := hs.write hblock (m := h.memory.fill p (p + n) 0) fun a ha => by
      rw [Memory.read_fill, if_neg]
      simp only [wordSize] at *
      omega
    exact ⟨hsound, hspares rest (hs.others htaken)⟩

/-- A request for zero bytes whose number is a word is a request for as many bytes, which are
cleared. -/
theorem allocateZeroed_eq {count size : Nat} (hlt : count * size < Word.limit) :
    (allocateZeroed count size : Action σ (Option Nat)) = do
      Action.diag .info (return .allocateZeroed count size)
      let answer ← allocate (count * size)
      Action.modify fun h => h.clear answer (count * size)
      return answer := by
  unfold allocateZeroed
  simp only [if_pos hlt]
  refine congrArg (Action.diag _ _ >>= ·) (funext fun _ => ?_)
  refine congrArg (allocate (count * size) >>= ·) (funext fun answer => ?_)
  cases answer <;> rfl

lemma allocateZeroed_overflow {count size : Nat} (hlimit : Word.limit ≤ count * size) :
    Action.Runs (allocateZeroed count size) h none h [] := by
  unfold allocateZeroed
  simp only [if_neg (Nat.not_lt.mpr hlimit)]
  exact (Action.Runs.note _ _ h).andThen (Action.Runs.pure _ _)

/-- How a request for `count * size` zero bytes ends. -/
inductive Zeroed (h : Arena σ) (count size : Nat) (blocks : List Piece) (h' : Arena σ) :
    Option Nat → List Piece → List Event → Prop where
  | overflow (large : Word.limit ≤ count * size) (arena : h' = h) :
      Zeroed h count size blocks h' none blocks []
  | failed {blocks' : List Piece} {asked : List Event} (bounded : count * size < Word.limit)
      (step : Allocated h (count * size) blocks h' none blocks' asked) :
      Zeroed h count size blocks h' none blocks' asked
  | cleared {p : Nat} {blocks' : List Piece} {asked : List Event} (h₁ : Arena σ)
      (bounded : count * size < Word.limit)
      (step : Allocated h (count * size) blocks h₁ (some p) blocks' asked)
      (arena : h' = h₁.withMemory (h₁.memory.fill p (p + count * size) 0)) :
      Zeroed h count size blocks h' (some p) blocks' asked

theorem allocateZeroed_trades (hP : Segment.Exact P) (hs : h.Sound P blocks) (count size : Nat) :
    ∃ r h' asked blocks',
      Trades P (allocateZeroed count size) h blocks r h' asked blocks' []
        (Block.handed r (count * size)) ∧
        Zeroed h count size blocks h' r blocks' asked := by
  by_cases hlt : count * size < Word.limit
  · obtain ⟨r, h₁, asked, blocks₁, ⟨rest, hl, hrest, htaken⟩, ha⟩ :=
      allocate_trades hP hs (count * size)
    have hgiven := htaken
    rw [← hl.akin.start] at hgiven
    obtain ⟨hcleared, hspares⟩ := hl.sound.clear hgiven
    have hakin := h₁.clear_akin r (count * size)
    refine ⟨r, h₁.clear r (count * size), asked, blocks₁, ⟨rest, ⟨?_, hcleared,
      hl.akin.trans hakin, hl.spares.trans hspares (List.Subset.refl _)⟩, hrest, htaken⟩, ?_⟩
    · rw [allocateZeroed_eq hlt]
      apply (Action.Runs.note _ _ h).andThen
      refine hl.runs.thenQuiet ?_
      exact (Action.Runs.modify hakin.start (by cases r <;> rfl)).andThen (Action.Runs.pure _ _)
    · cases r with
      | none => exact .failed hlt ha
      | some p => exact .cleared h₁ hlt ha rfl
  · have hlimit := Nat.le_of_not_lt hlt
    exact ⟨none, h, [], blocks, hs.stay (allocateZeroed_overflow hlimit), .overflow hlimit rfl⟩

end Arena
end BlockHeap
