import BlockHeap.Proofs.Choice
import BlockHeap.Proofs.Integrity
import BlockHeap.Proofs.Ownership

/-!
# Placing a block

A request takes the front of one free block: the one that the policy chooses among those that are
large enough, or else the one at the end, for which the segment grows once. What is left over of that
block stays free behind the new one, and the rest of the chain stays as it is. There is no answer only
where no word holds the block's size, or where no block is large enough and the segment does not grow.
-/

namespace BlockHeap

variable {σ : Type} [Segment σ]

lemma Block.limit_le_leastSize {n : Nat} (h : Block.sizeFor n = none) :
    Word.limit ≤ Block.leastSize n := by
  by_contra hlt
  exact absurd (h.symm.trans (Block.sizeFor_leastSize (by omega))) nofun

namespace Arena

variable {P : σ → Prop} {h h' : Arena σ} {blocks blocks' pre post : List Piece} {size k n : Nat}
  {r : Option Nat} {asked : List Event}

/-- How a request for a block of `size` bytes is met: what it answers, the chain that it leaves, and
what it asks the segment for. -/
inductive Placed (h : Arena σ) (size : Nat) (blocks : List Piece) :
    Option Nat → List Piece → List Event → Prop where
  | oversized (large : Word.limit ≤ size) : Placed h size blocks none blocks []
  | fitted {pre post : List Piece} {k : Nat} (under : size < Word.limit)
      (chain : blocks = pre ++ ⟨k, .free⟩ :: post) (room : size ≤ k)
      (first : ∀ c ∈ openings size h.start blocks, h.Prefers (h.start + span pre, k) c) :
      Placed h size blocks (some (h.start + span pre + wordSize))
        (pre ++ ⟨size, .allocated⟩ :: remnant (k - size) ++ post) []
  | denied (under : size < Word.limit) (full : openings size h.start blocks = [])
      (answer : (Segment.grow (max h.chunkSize size) h.segment h.memory).refusal ≠ none) :
      Placed h size blocks none blocks [.grow (max h.chunkSize size)]
  | extended (under : size < Word.limit) (full : openings size h.start blocks = [])
      (answer : (Segment.grow (max h.chunkSize size) h.segment h.memory).refusal = none) :
      Placed h size blocks (some (h.start + span (restTail blocks) + wordSize))
        (restTail blocks ++
          ⟨size, .allocated⟩ :: remnant (max h.chunkSize size + freeTail blocks - size))
        [.grow (max h.chunkSize size)]

/-- The free block that is obtained is the one that the policy chooses, or the one at the end after the
segment grew. -/
lemma Obtained.place
    (ho : Obtained h size blocks h' (.some (h.start + span pre)) (pre ++ ⟨k, .free⟩ :: post) asked)
    (hl : h.Linked blocks) (hpos : ∀ p ∈ pre ++ ⟨k, .free⟩ :: post, 0 < p.size) :
    (blocks = pre ++ ⟨k, .free⟩ :: post ∧ asked = [] ∧
      ∀ c ∈ openings size h.start blocks, h.Prefers (h.start + span pre, k) c) ∨
    (openings size h.start blocks = [] ∧
      (Segment.grow (max h.chunkSize size) h.segment h.memory).refusal = none ∧
      pre = restTail blocks ∧ k = max h.chunkSize size + freeTail blocks ∧ post = [] ∧
      asked = [.grow (max h.chunkSize size)]) := by
  generalize hat : Option.some (h.start + span pre) = found at ho
  generalize hchain : pre ++ ⟨k, .free⟩ :: post = grown at ho hpos
  cases ho with
  | found hit =>
    subst hchain
    left
    refine ⟨rfl, rfl, ?_⟩
    -- the chosen block starts where the one that was cut off the chain does
    obtain ⟨j, hj, hfirst⟩ := (hl.search_chosen size).first _ hit
    obtain ⟨_, before, after, hsplit, hb⟩ := mem_openings_iff.mp hj
    have hstart := Option.some.inj hat
    obtain ⟨_, hpiece, _⟩ := split_unique hpos hsplit (by omega)
    obtain ⟨rfl, _⟩ := Piece.mk.inj hpiece
    rwa [hstart]
  | enlarged miss step =>
    right
    cases step with
    | refused => exact absurd hat nofun
    | granted answer =>
      have hstart := Option.some.inj hat
      rw [← hchain] at hpos
      obtain ⟨hpre, hpiece, hpost⟩ := split_unique hpos hchain (by
        simp only [withPlacement_start] at hstart
        omega)
      exact ⟨search_none miss, answer, hpre, (Piece.mk.inj hpiece).1, hpost, rfl⟩

theorem Allocated.placed_of_pos (ha : Allocated h n blocks h' r blocks' asked)
    (hs : h.Sound P blocks) (hs' : h'.Sound P blocks') (hn : 0 < n) :
    Placed h (Block.leastSize n) blocks r blocks' asked := by
  cases ha with
  | empty zero => omega
  | unsized large => exact .oversized (Block.limit_le_leastSize large)
  | missed sized step =>
    obtain rfl := Block.sizeFor_eq sized
    have hunder := (Block.sizeFor_spec sized).2.2.2
    cases step with
    | enlarged miss step =>
      cases step with
      | refused answer => exact .denied hunder (search_none miss) answer
  | @placed size k pre post _ h₁ m sized step room =>
    obtain rfl := Block.sizeFor_eq sized
    obtain ⟨hunit, hroom, _, hunder⟩ := Block.sizeFor_spec sized
    have htiles := hs'.chained.tiles
    have hk : k % blockUnit = 0 := by
      have hmid := (tiles_append.mp (tiles_append.mp htiles).1).2.span_mod
      rwa [span_carved] at hmid
    have hpos : ∀ p ∈ pre ++ ⟨k, .free⟩ :: post, 0 < p.size := by
      intro p hp
      rcases List.mem_append.mp hp with hp | hp
      · exact (htiles.whole (List.mem_append_left _ (List.mem_append_left _ hp))).1
      · rcases List.mem_cons.mp hp with rfl | hp
        · simp only
          omega
        · exact (htiles.whole (List.mem_append_right _ hp)).1
    rw [carved_eq hunit hk room]
    rcases step.place hs.toLaid.linked hpos with
      ⟨hchain, rfl, hfirst⟩ | ⟨hfull, hanswer, rfl, rfl, rfl, rfl⟩
    · exact .fitted hunder hchain room hfirst
    · rw [List.append_nil]
      exact .extended hunder hfull hanswer

end Arena

variable {P : σ → Prop} {segment : σ} {memory : Memory} {config : Config} {h : Heap σ}
  {live : List Lease}

/-- Over an exact provider, let `b` be the size of the block that a request asks for. There is no
answer exactly if no word holds `b`, or if no free block is large enough and the provider refuses to
grow. As long as a free block is large enough, the provider is not asked, and the block is placed in
the one that the policy chooses. Otherwise it is asked once, and the block is placed in the free block
at the end, larger by what was asked for, or in a new one there. The new block is the front of that
free block; what is left over of it is free, and all other blocks are as before. -/
theorem Reach.allocate_placed (hP : Segment.Exact P) (hsegment : P segment)
    (hr : Reach segment memory config h live) {n b : Nat} (hn : 0 < n)
    (hb : IsLeast {k | n + 2 * wordSize ≤ k ∧ blockUnit ∣ k} b) :
    let after := h.serve (.allocate n)
    let asked := Event.requests (Arena.allocate n h.arena).events
    let answer := Segment.grow (max config.chunkSize b) h.arena.segment h.arena.memory
    ∃ blocks grown r, h.arena.Formed blocks ∧ after.result = .ok r ∧
      after.state.arena.start = h.arena.start ∧
      (r = none ↔ Word.limit ≤ b ∨ (∀ p ∈ blocks, ¬p.Fits b) ∧ answer.refusal ≠ none) ∧
      (Word.limit ≤ b → asked = []) ∧
      ((∃ p ∈ blocks, p.Fits b) → asked = [] ∧ grown = blocks) ∧
      (b < Word.limit → (∀ p ∈ blocks, ¬p.Fits b) → asked = [.grow (max config.chunkSize b)] ∧
        (answer.refusal = none →
          grown = restTail blocks ++ [⟨max config.chunkSize b + freeTail blocks, .free⟩])) ∧
      (r = none → after.state.arena.Formed blocks) ∧
      ∀ p ∈ r, ∃ pre k post, grown = pre ++ ⟨k, .free⟩ :: post ∧ b ≤ k ∧
        p = h.arena.start + span pre + wordSize ∧
        ((∃ q ∈ blocks, q.Fits b) → ∀ c ∈ openings b h.arena.start blocks,
          h.arena.Prefers (h.arena.start + span pre, k) c) ∧
        ((∀ q ∈ blocks, ¬q.Fits b) → pre = restTail blocks ∧ post = []) ∧
        after.state.arena.Formed (pre ++ ⟨b, .allocated⟩ :: remnant (k - b) ++ post) := by
  rw [← (hr.settings hP hsegment).2.1]
  intro after asked answer
  obtain ⟨blocks, hh⟩ := hr.held hP hsegment
  obtain rfl := hb.unique (Block.leastSize_isLeast n)
  obtain ⟨r, h', requests, blocks', hl, ha⟩ := Arena.allocate_leads hP hh.sound n
  have hplaced := ha.placed_of_pos hh.sound hl.sound hn
  obtain ⟨hresult, hserved⟩ := h.serve_eq (.allocate n)
  replace hresult : after.result = .ok r := hresult.trans hl.runs.result
  have hafter : after.state.arena = h' := (congrArg Heap.arena hserved).trans hl.runs.arena
  have hasked : asked = requests := hl.runs.requests
  have hformed := hl.sound.formed
  rw [hafter, hasked]
  cases hplaced with
  | oversized large =>
    refine ⟨blocks, blocks, none, hh.sound.formed, hresult, hl.akin.start,
      iff_of_true rfl (Or.inl large), fun _ => rfl, fun _ => ⟨rfl, rfl⟩, ?_, fun _ => hformed, nofun⟩
    intro hunder
    omega
  | @fitted pre post k under chain room first =>
    have hfits : ∃ p ∈ blocks, p.Fits (Block.leastSize n) :=
      ⟨⟨k, .free⟩, by rw [chain]; simp, rfl, room⟩
    have hsome : ¬∀ p ∈ blocks, ¬p.Fits (Block.leastSize n) := by
      push Not
      exact hfits
    refine ⟨blocks, blocks, _, hh.sound.formed, hresult, hl.akin.start,
      iff_of_false nofun ?_, fun _ => rfl, fun _ => ⟨rfl, rfl⟩, fun _ hnone => absurd hnone hsome,
      nofun, ?_⟩
    · rintro (hlarge | ⟨hnone, _⟩)
      · omega
      · exact hsome hnone
    · rintro p hp
      obtain rfl := Option.some.inj hp
      exact ⟨pre, k, post, chain, room, rfl, fun _ => first, fun hnone => absurd hnone hsome, hformed⟩
  | denied under full refused =>
    have hnone := openings_eq_nil_iff.mp full
    refine ⟨blocks, blocks, none, hh.sound.formed, hresult, hl.akin.start,
      iff_of_true rfl (Or.inr ⟨hnone, refused⟩), ?_, ?_, fun _ _ => ⟨rfl, ?_⟩, fun _ => hformed, nofun⟩
    · intro hlarge
      omega
    · rintro ⟨p, hp, hfit⟩
      exact absurd hfit (hnone p hp)
    · exact fun hgranted => absurd hgranted refused
  | extended under full granted =>
    have hnone := openings_eq_nil_iff.mp full
    have hfew : ¬∃ p ∈ blocks, p.Fits (Block.leastSize n) := by
      rintro ⟨p, hp, hfit⟩
      exact hnone p hp hfit
    refine ⟨blocks, _, _, hh.sound.formed, hresult, hl.akin.start,
      iff_of_false nofun ?_, ?_, fun hfits => absurd hfits hfew, fun _ _ => ⟨rfl, fun _ => rfl⟩,
      nofun, ?_⟩
    · rintro (hlarge | ⟨_, hrefused⟩)
      · omega
      · exact hrefused granted
    · intro hlarge
      omega
    · rintro p hp
      obtain rfl := Option.some.inj hp
      have hroom := Nat.le_max_right h.arena.chunkSize (Block.leastSize n)
      refine ⟨restTail blocks, _, [], rfl, by omega, rfl, fun hfits => absurd hfits hfew,
        fun _ => ⟨rfl, rfl⟩, ?_⟩
      rwa [List.append_nil]

/-- The free block at the end is too small, and grows. -/
theorem Reach.allocate_placed_extended : ∃ (h : Heap (Reservation .common)) (live : List Lease),
    Heap.session (⟨0x100000, 65536, 0, 4096⟩ : Reservation .common) Reservation.blank Config.standard
      [.allocate 100] = some (h, live) ∧
    (h.serve (.allocate 5000)).result = .ok (some 0x1000a8) ∧
    Event.requests (Arena.allocate 5000 h.arena).events = [.grow 5024] ∧
    (h.serve (.allocate 5000)).state.arena.Formed
      [⟨128, .allocated⟩, ⟨5024, .allocated⟩, ⟨832, .free⟩] := by
  have hplayed : (Heap.session (⟨0x100000, 65536, 0, 4096⟩ : Reservation .common) Reservation.blank
      Config.standard [.allocate 100]).map (fun s => (s.1.arena.start,
        decide (s.1.arena.Linked [⟨128, .allocated⟩, ⟨832, .free⟩]),
        (Segment.grow 5024 s.1.arena.segment s.1.arena.memory).refusal)) =
      some (0x100020, true, none) := by
    decide +kernel
  obtain ⟨⟨h, live⟩, hs, hfacts⟩ := Option.map_eq_some_iff.mp hplayed
  simp only [Prod.mk.injEq, decide_eq_true_eq] at hfacts
  obtain ⟨hstart, hl, hgranted⟩ := hfacts
  have hsegment : (⟨0x100000, 65536, 0, 4096⟩ : Reservation .common).Paged :=
    Reservation.paged_common (by decide)
  have hleast : IsLeast {k | 5000 + 2 * wordSize ≤ k ∧ blockUnit ∣ k} 5024 :=
    Block.leastSize_isLeast 5000
  obtain ⟨blocks, grown, r, hformed, hresult, _, hiff, _, _, hasked, _, hplace⟩ :=
    Reach.allocate_placed Reservation.exact_paged hsegment (Reach.of_session hs) (n := 5000)
      (by decide) hleast
  obtain rfl := hformed.eq_of_linked hl
  have hnone : ∀ p ∈ [(⟨128, .allocated⟩ : Piece), ⟨832, .free⟩], ¬p.Fits 5024 := by decide
  obtain ⟨hrequest, hgrown⟩ := hasked (by decide) hnone
  cases r with
  | none =>
    rcases hiff.mp rfl with hlarge | ⟨_, hrefused⟩
    · exact absurd hlarge (by decide)
    · exact absurd hgranted hrefused
  | some p =>
    obtain ⟨pre, k, post, hsplit, _, hp, _, hend, hafter⟩ := hplace p rfl
    obtain ⟨rfl, rfl⟩ := hend hnone
    rw [hgrown hgranted] at hsplit
    obtain ⟨rfl, _⟩ := Piece.mk.inj (List.cons.inj (List.append_cancel_left hsplit)).1
    rw [hstart] at hp
    obtain rfl : p = 0x1000a8 := hp
    exact ⟨h, live, hs, hresult, hrequest, hafter⟩

end BlockHeap
