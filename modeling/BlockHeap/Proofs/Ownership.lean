import BlockHeap.Proofs.Integrity
import Mathlib.Data.Set.Function
import Mathlib.Order.Bounds.Basic

/-!
# Ownership of blocks

The payloads that a client holds are the allocated blocks, one for one, and each block is as large as
its payload needs and no larger. What an operation does to the payload that it is given concerns no
other: their blocks stay allocated and their bytes stay as they are.
-/

namespace BlockHeap

lemma Block.leastSize_isLeast (size : Nat) :
    IsLeast {n | size + 2 * wordSize ≤ n ∧ blockUnit ∣ n} (Block.leastSize size) := by
  obtain ⟨hmod, hlow, hhigh⟩ := leastSize_spec size
  refine ⟨⟨hlow, Nat.dvd_of_mod_eq_zero hmod⟩, ?_⟩
  rintro n ⟨hle, k, rfl⟩
  simp only [blockUnit, wordSize] at *
  omega

variable {σ : Type} [Segment σ]

namespace Held

variable {P : σ → Prop} {h : Arena σ} {live : List Lease} {blocks : List Piece} {l l' : Lease}

lemma block_address (hh : Held P h live blocks) (hl : l ∈ live) :
    h.start ≤ l.block.1 ∧ l.block.1 + l.block.2 ≤ h.stop ∧ l.block.1 % blockUnit = 0 ∧
      l.payload = l.block.1 + wordSize := by
  obtain ⟨pre, post, rfl, hat⟩ := hh.split hl
  have hle := hh.sound.toLaid.block_le
  have hal := hh.sound.aligned
  have hpre := (tiles_append.mp hh.sound.chained.tiles).1.span_mod
  rw [Lease.block_eq hat]
  simp only [blockUnit] at *
  exact ⟨by omega, by omega, by omega, hat⟩

lemma blocks_injOn (hh : Held P h live blocks) :
    Set.InjOn (fun p => p - wordSize) {p | p ∈ live.map Lease.payload} := by
  intro p hp q hq heq
  obtain ⟨l, hl, rfl⟩ := List.mem_map.mp hp
  obtain ⟨l', hl', rfl⟩ := List.mem_map.mp hq
  have hle := hh.word_le l hl
  have hle' := hh.word_le l' hl'
  simp only [wordSize] at *
  omega

theorem bijOn (hh : Held P h live blocks) :
    Set.BijOn (fun p => p - wordSize) {p | p ∈ live.map Lease.payload}
      {b | b ∈ (taken h.start blocks).map Prod.fst} := by
  refine ⟨?_, hh.blocks_injOn, ?_⟩
  · intro p hp
    obtain ⟨l, hl, rfl⟩ := List.mem_map.mp hp
    exact List.mem_map.mpr ⟨l.block, hh.mem_taken hl, rfl⟩
  · intro b hb
    obtain ⟨block, hblock, rfl⟩ := List.mem_map.mp hb
    obtain ⟨l, hl, rfl⟩ := List.mem_map.mp (hh.leases.mem_iff.mpr hblock)
    exact ⟨l.payload, List.mem_map_of_mem hl, rfl⟩

lemma blocks_apart (hh : Held P h live blocks) (hl : l ∈ live) (hl' : l' ∈ live)
    (hne : l.payload ≠ l'.payload) :
    l.block.1 + l.block.2 ≤ l'.block.1 ∨ l'.block.1 + l'.block.2 ≤ l.block.1 := by
  have hle := hh.word_le l hl
  have hle' := hh.word_le l' hl'
  refine taken_disjoint (hh.mem_taken hl) (hh.mem_taken hl') fun heq => ?_
  have haddress := congrArg Prod.fst heq
  simp only [Lease.block, wordSize] at *
  omega

theorem pairwise_apart (hh : Held P h live blocks) :
    live.Pairwise fun l l' =>
      l.payload + l.size ≤ l'.payload ∨ l'.payload + l'.size ≤ l.payload := by
  apply (List.pairwise_map.mp hh.payload_nodup).imp_of_mem
  intro l l' hl hl' hne
  have hle := hh.word_le l hl
  have hle' := hh.word_le l' hl'
  have hfits := Block.le_leastSize l.size
  have hfits' := Block.le_leastSize l'.size
  have hapart := hh.blocks_apart hl hl' hne
  simp only [Lease.block, wordSize] at *
  omega

lemma allocatedBytes_eq (hh : Held P h live blocks) :
    (h.reportOf blocks).allocatedBytes = (live.map fun l => Block.leastSize l.size).sum := by
  have hsizes := (hh.leases.map Prod.snd).sum_eq
  rw [List.map_map] at hsizes
  exact (Report.bytesIn_rowsOf_allocated _ _ _).trans hsizes.symm

end Held

variable {P : σ → Prop} {segment : σ} {memory : Memory} {config : Config} {h : Heap σ}
  {live : List Lease}

/-- Over an exact provider, at every point of a session, the live payloads are the allocated blocks
of the chain, one for one; each block has the least size that its payload's request needs, the
payloads lie apart from each other within the heap, and a check adds up their blocks. -/
theorem Reach.owned (hP : Segment.Exact P) (hsegment : P segment)
    (hr : Reach segment memory config h live) :
    ∃ blocks, h.arena.Formed blocks ∧
      Set.BijOn (fun p => p - wordSize) {p | p ∈ live.map Lease.payload}
        {b | b ∈ (taken h.arena.start blocks).map Prod.fst} ∧
      (live.map Lease.payload).Nodup ∧
      (∀ l ∈ live, ∃ n, (l.payload - wordSize, n) ∈ taken h.arena.start blocks ∧
        IsLeast {n | l.size + 2 * wordSize ≤ n ∧ blockUnit ∣ n} n) ∧
      live.Pairwise (fun l l' =>
        l.payload + l.size ≤ l'.payload ∨ l'.payload + l'.size ≤ l.payload) ∧
      (∀ l ∈ live, h.arena.start ≤ l.payload ∧ l.payload + l.size ≤ h.arena.stop ∧
        l.payload % blockUnit = wordSize) ∧
      ∃ report, h.check = .ok report ∧
        report.allocatedBytes = (live.map fun l => Block.leastSize l.size).sum := by
  obtain ⟨blocks, hh⟩ := hr.held hP hsegment
  refine ⟨blocks, hh.sound.formed, hh.bijOn, hh.payload_nodup, ?_, hh.pairwise_apart, ?_,
    h.arena.reportOf blocks, hh.sound.check_eq.1, hh.allocatedBytes_eq⟩
  · intro l hl
    exact ⟨Block.leastSize l.size, hh.mem_taken hl, Block.leastSize_isLeast l.size⟩
  · intro l hl
    obtain ⟨hlow, hhigh, hmod, hat⟩ := hh.block_address hl
    have hfits := Block.le_leastSize l.size
    simp only [Lease.block, blockUnit, wordSize] at *
    exact ⟨by omega, by omega, by omega⟩

/-- Two payloads are live after a session over a reservation that moved one. -/
theorem Reach.owned_played : ∃ (h : Heap (Reservation .common)) (blocks : List Piece),
    (Heap.session (⟨0x100000, 65536, 0, 4096⟩ : Reservation .common) Reservation.blank Config.standard
      [.allocate 100, .allocateZeroed 4 30, .resize (some 0x100028) 300]) =
        some (h, [⟨0x100148, 300⟩, ⟨0x1000a8, 120⟩]) ∧
    h.arena.Formed blocks ∧
    Set.BijOn (fun p => p - wordSize) {p | p ∈ [0x100148, 0x1000a8]}
      {b | b ∈ (taken h.arena.start blocks).map Prod.fst} := by
  have hplayed : (Heap.session (⟨0x100000, 65536, 0, 4096⟩ : Reservation .common) Reservation.blank
      Config.standard [.allocate 100, .allocateZeroed 4 30, .resize (some 0x100028) 300]).map
        Prod.snd = some [⟨0x100148, 300⟩, ⟨0x1000a8, 120⟩] := by
    decide +kernel
  obtain ⟨⟨h, live⟩, hs, rfl⟩ := Option.map_eq_some_iff.mp hplayed
  have hsegment : (⟨0x100000, 65536, 0, 4096⟩ : Reservation .common).Paged :=
    Reservation.paged_common (by decide)
  obtain ⟨blocks, hformed, hbij, _⟩ :=
    Reach.owned Reservation.exact_paged hsegment (.of_session hs)
  exact ⟨h, blocks, hs, hformed, hbij⟩

/-- Over an exact provider, no call touches a live payload that it is not given: its block stays
allocated with its size, and all bytes that its owner may use stay as they are. -/
theorem Reach.framed (hP : Segment.Exact P) (hsegment : P segment)
    (hr : Reach segment memory config h live) {c : Call} (hc : c.Valid live) {l : Lease}
    (hl : l ∈ live) (hother : c.pointer ≠ some l.payload) :
    ∃ answer blocks blocks' size,
      (h.serve c).result = .ok answer ∧ l ∈ c.settle live answer ∧
      h.arena.Formed blocks ∧ (h.serve c).state.arena.Formed blocks' ∧
      (l.payload - wordSize, size) ∈ taken h.arena.start blocks ∧
      (l.payload - wordSize, size) ∈ taken (h.serve c).state.arena.start blocks' ∧
      ∀ a, l.payload ≤ a → a < l.payload + (size - 2 * wordSize) →
        (h.serve c).state.arena.memory.read a = h.arena.memory.read a := by
  obtain ⟨blocks, hh⟩ := hr.held hP hsegment
  obtain ⟨answer, h', asked, hruns, ⟨blocks', hh'⟩, hakin, hspares⟩ := hh.serve hP hc
  obtain ⟨hresult, hstate⟩ := h.serve_eq c
  have hkept : l ∈ c.kept live answer := by
    unfold Call.kept
    split
    next =>
      refine List.mem_filter.mpr ⟨hl, ?_⟩
      simpa using fun heq => hother heq.symm
    next => exact hl
  have hsettled : l ∈ c.settle live answer := List.mem_append_right _ hkept
  have hle := hh.word_le l hl
  have hblock := (taken_whole hh.sound.chained.tiles (hh.mem_taken hl)).le
  rw [hresult, hstate, hruns.arena]
  refine ⟨answer, blocks, blocks', Block.leastSize l.size, hruns.result, hsettled,
    hh.sound.formed, hh'.sound.formed, hh.mem_taken hl, hh'.mem_taken hsettled, ?_⟩
  intro a hlow hhigh
  refine hspares l.block (List.mem_map_of_mem hkept) a ?_ ?_
  · simp only [Lease.block, wordSize] at *
    omega
  · simp only [Lease.block, minBlockSize, wordSize] at *
    omega

/-- A payload that its client filled is left alone while another one moves: its block keeps its size, and
every byte of it what was in it. -/
theorem Reach.framed_played : ∃ h₀ : Heap (Reservation .common),
    Heap.session (⟨0x100000, 65536, 0, 4096⟩ : Reservation .common) Reservation.blank Config.standard
      [.allocate 100, .allocateZeroed 4 30] = some (h₀, [⟨0x1000a8, 120⟩, ⟨0x100028, 100⟩]) ∧
    let h : Heap (Reservation .common) :=
      { h₀ with arena := h₀.arena.write 0x1000a8 120 fun _ => 0x5a }
    let after := h.serve (.resize (some 0x100028) 300)
    h.arena.Formed [⟨128, .allocated⟩, ⟨160, .allocated⟩, ⟨672, .free⟩] ∧
    after.result = .ok (some 0x100148) ∧
    (∃ blocks, after.state.arena.Formed blocks ∧
      (0x1000a0, 160) ∈ taken after.state.arena.start blocks) ∧
    (∀ a, 0x1000a8 ≤ a → a < 0x1000a8 + (160 - 2 * wordSize) →
      after.state.arena.memory.read a = h.arena.memory.read a) ∧
    ∀ i < 120, after.state.arena.memory.read (0x1000a8 + i) = 0x5a := by
  have hplayed : (Heap.session (⟨0x100000, 65536, 0, 4096⟩ : Reservation .common) Reservation.blank
      Config.standard [.allocate 100, .allocateZeroed 4 30]).map (fun s =>
        let h : Heap (Reservation .common) :=
          { s.1 with arena := s.1.arena.write 0x1000a8 120 fun _ => 0x5a }
        (s.2, s.1.arena.usable 0x1000a8, h.arena.start, decide (h.arena.Linked
          [⟨128, .allocated⟩, ⟨160, .allocated⟩, ⟨672, .free⟩]),
          (h.serve (.resize (some 0x100028) 300)).result.toOption)) =
      some ([⟨0x1000a8, 120⟩, ⟨0x100028, 100⟩], 144, 0x100020, true, some (some 0x100148)) := by
    decide +kernel
  obtain ⟨⟨h₀, live⟩, hs, hfacts⟩ := Option.map_eq_some_iff.mp hplayed
  simp only [Prod.mk.injEq, decide_eq_true_eq] at hfacts
  obtain ⟨rfl, husable, hstart, hlinked, hmoved⟩ := hfacts
  have hsegment : (⟨0x100000, 65536, 0, 4096⟩ : Reservation .common).Paged :=
    Reservation.paged_common (by decide)
  have hwritten := (Reach.of_session hs).write (l := ⟨0x1000a8, 120⟩) 0x1000a8 120 (fun _ => 0x5a)
    (by simp) (Nat.le_refl _) (by rw [husable]; decide)
  obtain ⟨_, blocks, blocks', size, _, _, hformed, hformed', hblock, hblock', hsame⟩ :=
    Reach.framed Reservation.exact_paged hsegment hwritten (c := .resize (some 0x100028) 300)
      (by decide) (l := ⟨0x1000a8, 120⟩) (by simp) (by decide)
  obtain rfl := hformed.eq_of_linked hlinked
  -- the payload's block is the second one
  rw [hstart] at hblock
  obtain rfl : size = 160 := by
    simpa [wordSize] using hblock
  refine ⟨h₀, hs, hformed, ok_of_toOption hmoved, ⟨blocks', hformed', hblock'⟩, hsame, ?_⟩
  intro i hi
  rw [hsame (0x1000a8 + i) (by simp only; omega) (by simp only [wordSize]; omega)]
  exact (Memory.read_tabulate _ _ _ _ _).trans (if_pos (by omega))

end BlockHeap
